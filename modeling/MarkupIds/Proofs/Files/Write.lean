import MarkupIds.Files.Tree
import MarkupIds.Proofs.Files.Tree
import MarkupIds.Proofs.Ident.Path

/-! Writing to a path: either the file at its place holds the text and every other file is what it was, or
nothing has happened to any file. Directories are only added. -/

namespace MarkupIds.FileTree

variable {t t' : FileTree}

section Directories

theorem makeDirectory_eq_ok {p : Path} :
    t.makeDirectory p = .ok t' ↔ ∃ l, t.place p = .ok l ∧ t.existsAt l = false ∧ t' = t.addDirectory l := by
  unfold makeDirectory
  cases hplace : t.place p with
  | error fault => simp [bind, Except.bind]
  | ok l =>
      cases hthere : t.existsAt l with
      | true => simp [bind, Except.bind, hthere]
      | false =>
          simp only [bind, Except.bind, hthere, pure, Except.pure, Except.ok.injEq, Bool.false_eq_true, if_false,
            exists_eq_left', true_and]
          exact eq_comm

theorem makeDirectoryUnlessThere_cases (t : FileTree) (p : Path) :
    (t.makeDirectoryUnlessThere p).1 = t ∨ t.makeDirectory p = .ok (t.makeDirectoryUnlessThere p).1 := by
  unfold makeDirectoryUnlessThere
  split
  next hmade => exact .inr hmade
  next =>
    left
    split <;> rfl

/-- What each directory that is made on the way keeps, all of them keep. -/
theorem ensureFirst_induct {P : FileTree → Prop} {p : Path}
    (step : ∀ t t' n, P t → t.makeDirectory { p with parts := p.parts.take n } = .ok t' → P t') {n : Nat}
    (h : P t) : P (t.ensureFirst p n).1 := by
  have unlessThere {t : FileTree} (h : P t) (n : Nat) :
      P (t.makeDirectoryUnlessThere { p with parts := p.parts.take n }).1 := by
    obtain hsame | hmade := t.makeDirectoryUnlessThere_cases { p with parts := p.parts.take n }
    · rw [hsame]
      exact h
    · exact step _ _ _ h hmade
  induction n with
  | zero => exact unlessThere h 0
  | succ n ih =>
      rw [ensureFirst]
      split
      next =>
        split
        next hensured =>
          rw [hensured] at ih
          exact unlessThere ih _
        next => exact ih
      next => exact unlessThere h _

@[simp] theorem files_ensureDirectory (t : FileTree) (p : Path) : (t.ensureDirectory p).1.files = t.files := by
  refine ensureFirst_induct (P := fun t' => t'.files = t.files) ?_ rfl
  intro t₁ t₂ n h hmade
  obtain ⟨l, -, -, rfl⟩ := makeDirectory_eq_ok.mp hmade
  rw [files_addDirectory, h]

theorem grows_addDirectory (t : FileTree) (l : Location) : Grows t (t.addDirectory l) where
  here := t.here_addDirectory l
  directories l' h := by rw [isDirectoryAt_addDirectory, h, Bool.true_or]

theorem grows_ensureDirectory (t : FileTree) (p : Path) : Grows t (t.ensureDirectory p).1 := by
  refine ensureFirst_induct (P := Grows t) ?_ (Grows.refl t)
  intro t₁ t₂ n h hmade
  obtain ⟨l, -, -, rfl⟩ := makeDirectory_eq_ok.mp hmade
  exact h.trans (t₁.grows_addDirectory l)

theorem Sound.makeDirectory {p : Path} (h : t.Sound) (hp : p.Plain) (hmade : t.makeDirectory p = .ok t') : t'.Sound := by
  obtain ⟨l, hplace, hnothing, rfl⟩ := makeDirectory_eq_ok.mp hmade
  rw [existsAt, Bool.or_eq_false_iff] at hnothing
  obtain ⟨m, -, hm, hname, rfl⟩ := h.exists_name hplace hnothing.1 hp.not_mem_name
  exact h.addDirectory hm hname hnothing.2

theorem Sound.ensureDirectory {p : Path} (h : t.Sound) (hp : p.Plain) : (t.ensureDirectory p).1.Sound := by
  refine ensureFirst_induct (P := Sound) ?_ h
  intro t₁ t₂ n h₁ hmade
  exact h₁.makeDirectory (fun k hk => hp k (List.mem_of_mem_take hk)) hmade

end Directories

section Temporary

/-- A name for a temporary file that is the better, the lower its number is. -/
def temporaryName (name token : String) (n : Nat) : String :=
  name ++ "." ++ token ++ (if n == 0 then "" else toString n) ++ ".tmp"

theorem temporaryName_injective (name token : String) : Function.Injective (temporaryName name token) := by
  intro j k h
  have hnumber : (if j == 0 then "" else toString j) = if k == 0 then "" else toString k := by
    simpa only [temporaryName, String.append_left_inj, String.append_right_inj] using h
  have hdigits (n : Nat) : toString n ≠ "" := by
    intro hempty
    refine Nat.toDigits_ne_nil (n := n) (b := 10) ?_
    rw [← Nat.toList_repr, ← Nat.toString_eq_repr, hempty]
    rfl
  cases j with
  | zero =>
      cases k with
      | zero => rfl
      | succ k => exact absurd hnumber.symm (hdigits _)
  | succ j =>
      cases k with
      | zero => exact absurd hnumber (hdigits _)
      | succ k => exact Generator.toString_injective hnumber

/-- One more place than there are files and directories cannot all be taken. -/
theorem exists_temporaryName (t : FileTree) (directory : Location) (name token : String) :
    ∃ n ∈ List.range (t.files.length + t.directories.length + 1),
      t.existsAt (directory ++ [temporaryName name token n]) = false := by
  by_contra h
  push Not at h
  have hnodup : ((List.range (t.files.length + t.directories.length + 1)).map
      fun n => directory ++ [temporaryName name token n]).Nodup := by
    refine List.nodup_range.map ?_
    intro j k hjk
    exact temporaryName_injective name token (List.singleton_inj.mp (List.append_cancel_left hjk))
  have hsub : (List.range (t.files.length + t.directories.length + 1)).map
      (fun n => directory ++ [temporaryName name token n]) ⊆ t.directories ++ t.files.map (·.1) := by
    intro l hl
    obtain ⟨n, hn, rfl⟩ := List.mem_map.mp hl
    exact mem_of_existsAt (List.append_ne_nil_of_right_ne_nil _ (List.cons_ne_nil _ _))
      (Bool.not_eq_false _ ▸ h n hn)
  have hle := hnodup.length_le_of_subset hsub
  rw [List.length_map, List.length_range, List.length_append, List.length_map] at hle
  omega

theorem unusedName_eq (t : FileTree) (directory : Location) (name token : String) :
    t.unusedName directory name token =
      temporaryName name token (((List.range (t.files.length + t.directories.length + 1)).find? fun n =>
        !t.existsAt (directory ++ [temporaryName name token n])).getD 0) := rfl

/-- Nothing stands where a temporary file is put. -/
theorem existsAt_unusedName (t : FileTree) (directory : Location) (name token : String) :
    t.existsAt (directory ++ [t.unusedName directory name token]) = false := by
  rw [unusedName_eq]
  cases hfound : (List.range (t.files.length + t.directories.length + 1)).find? fun n =>
      !t.existsAt (directory ++ [temporaryName name token n]) with
  | none =>
      obtain ⟨n, hn, hfree⟩ := t.exists_temporaryName directory name token
      have htaken := List.find?_eq_none.mp hfound n hn
      rw [hfree] at htaken
      exact absurd rfl htaken
  | some n =>
      have hfree := List.find?_some hfound
      rwa [Bool.not_eq_true'] at hfree

end Temporary

section Write

variable {p : Path} {text : List Char} {token : String}

theorem moveTo_eq_ok {source : Location} : t.moveTo source p = .ok t' ↔ ∃ l, t.place p = .ok l ∧
    (p.parts.isEmpty || p.name == "..") = false ∧ t.isDirectoryAt l = false ∧
    t' = (t.remove source).put l ((t.fileAt? source).getD []) := by
  unfold moveTo
  cases hplace : t.place p with
  | error fault => simp [bind, Except.bind]
  | ok l =>
      cases hbusy : p.parts.isEmpty || p.name == ".." with
      | true => simp [bind, Except.bind]
      | false =>
          cases hdirectory : t.isDirectoryAt l with
          | true => simp [bind, Except.bind, hdirectory]
          | false =>
              simp only [bind, Except.bind, hdirectory, pure, Except.pure, Except.ok.injEq, Bool.false_eq_true, if_false,
                exists_eq_left', true_and]
              exact eq_comm

/-- The place of the temporary file for a path in a directory. -/
def temporaryPlace (t : FileTree) (p : Path) (directory : Location) (token : String) : Location :=
  directory ++ [t.unusedName directory p.name token]

/-- The tree with a temporary file in which a text stands. -/
def withTemporary (t : FileTree) (p : Path) (directory : Location) (text : List Char) (token : String) : FileTree :=
  t.put (t.temporaryPlace p directory token) (Text.encode text)

theorem fileAt?_temporaryPlace (t : FileTree) (p : Path) (directory : Location) (token : String) :
    t.fileAt? (t.temporaryPlace p directory token) = none := by
  have hnothing := t.existsAt_unusedName directory p.name token
  rw [existsAt, Bool.or_eq_false_iff, isFileAt, Option.isSome_eq_false_iff, Option.isNone_iff_eq_none] at hnothing
  exact hnothing.2

/-- Taking the temporary file away leaves the files as they were before it. -/
theorem fileAt?_remove_withTemporary (t : FileTree) (p : Path) (directory l : Location) (text : List Char)
    (token : String) : ((t.withTemporary p directory text token).remove (t.temporaryPlace p directory token)).fileAt? l =
      t.fileAt? l := by
  rw [fileAt?_remove, withTemporary, fileAt?_put]
  split
  next heq => rw [heq, fileAt?_temporaryPlace]
  next => rfl

/-- A write fails before the temporary file is there, or takes it away again, or moves it to its place. -/
theorem write_cases (t : FileTree) (p : Path) (text : List Char) (token : String) :
    ∃ t₁, t₁ = (t.ensureDirectory p.parent).1 ∧
      ((∃ fault, t.write p text token = (t₁, .error fault)) ∨
      ∃ directory,
        (∃ fault, t.write p text token =
          ((t₁.withTemporary p directory text token).remove (t₁.temporaryPlace p directory token), .error fault)) ∨
        ∃ t', (t₁.withTemporary p directory text token).moveTo (t₁.temporaryPlace p directory token) p = .ok t' ∧
          t.write p text token = (t', .ok ())) := by
  refine ⟨_, rfl, ?_⟩
  unfold write withTemporary temporaryPlace
  split
  next hensured =>
    rw [hensured]
    exact .inl ⟨_, rfl⟩
  next t₁ hensured =>
    rw [hensured]
    split
    next => exact .inl ⟨_, rfl⟩
    next directory hplace =>
      dsimp only
      split
      next t' hmoved => exact .inr ⟨directory, .inr ⟨t', hmoved, rfl⟩⟩
      next => exact .inr ⟨directory, .inl ⟨_, rfl⟩⟩

/-- What a write that succeeds leaves: the text at the place of the path, and all other files. -/
structure Written (t t' : FileTree) (p : Path) (bytes : List UInt8) (l : Location) : Prop where
  place : t'.place p = .ok l
  directory : t'.isDirectoryAt l = false
  files : ∀ l', t'.fileAt? l' = if l' = l then some bytes else t.fileAt? l'

theorem written_of_moveTo {directory : Location}
    (h : (t.withTemporary p directory text token).moveTo (t.temporaryPlace p directory token) p = .ok t') :
    t'.directories = t.directories ∧ t'.here = t.here ∧ ∃ l, Written t t' p (Text.encode text) l := by
  obtain ⟨l, hplace, -, hdirectory, rfl⟩ := moveTo_eq_ok.mp h
  have htemporary : (t.withTemporary p directory text token).fileAt? (t.temporaryPlace p directory token) =
      some (Text.encode text) := by rw [withTemporary, fileAt?_put, if_pos rfl]
  refine ⟨by rw [directories_put]; exact directories_put .., by rw [here_put]; exact here_put .., l, ?_, ?_, ?_⟩
  · have hgrows : Grows (t.withTemporary p directory text token)
        (((t.withTemporary p directory text token).remove (t.temporaryPlace p directory token)).put l
          (((t.withTemporary p directory text token).fileAt? (t.temporaryPlace p directory token)).getD [])) :=
      ⟨here_put .., fun l' h => by rwa [isDirectoryAt_put, isDirectoryAt_remove]⟩
    exact hgrows.place hplace
  · rw [isDirectoryAt_put, isDirectoryAt_remove, hdirectory]
  · intro l'
    rw [fileAt?_put, fileAt?_remove_withTemporary, htemporary, Option.getD_some]

/-- A text that is written stands at the place of the path, and every other file is what it was. -/
theorem written_of_write (h : t.write p text token = (t', .ok ())) : ∃ l, Written t t' p (Text.encode text) l := by
  obtain ⟨t₁, rfl, ⟨fault, hfault⟩ | ⟨directory, ⟨fault, hfault⟩ | ⟨t₂, hmoved, hwrite⟩⟩⟩ := t.write_cases p text token
  · rw [hfault] at h
    cases h
  · rw [hfault] at h
    cases h
  · obtain rfl : t₂ = t' := congrArg Prod.fst (hwrite.symm.trans h)
    obtain ⟨-, -, l, hplace, hdirectory, hfiles⟩ := written_of_moveTo hmoved
    refine ⟨l, hplace, hdirectory, ?_⟩
    intro l'
    rw [hfiles, fileAt?, fileAt?, files_ensureDirectory]

/-- A write that fails changes no file. -/
theorem fileAt?_of_write_error {fault : FileFault} (h : t.write p text token = (t', .error fault)) (l : Location) :
    t'.fileAt? l = t.fileAt? l := by
  have hensured : (t.ensureDirectory p.parent).1.fileAt? l = t.fileAt? l := by
    rw [fileAt?, fileAt?, files_ensureDirectory]
  obtain ⟨t₁, rfl, ⟨fault, hfault⟩ | ⟨directory, ⟨fault, hfault⟩ | ⟨t₂, -, hwrite⟩⟩⟩ := t.write_cases p text token
  · obtain rfl := congrArg Prod.fst (hfault.symm.trans h)
    exact hensured
  · obtain rfl := congrArg Prod.fst (hfault.symm.trans h)
    rw [fileAt?_remove_withTemporary, hensured]
  · rw [hwrite] at h
    cases h

theorem directories_write (t : FileTree) (p : Path) (text : List Char) (token : String) :
    (t.write p text token).1.directories = (t.ensureDirectory p.parent).1.directories ∧
      (t.write p text token).1.here = (t.ensureDirectory p.parent).1.here := by
  obtain ⟨t₁, rfl, ⟨fault, hfault⟩ | ⟨directory, ⟨fault, hfault⟩ | ⟨t₂, hmoved, hwrite⟩⟩⟩ := t.write_cases p text token
  · rw [hfault]
    exact ⟨rfl, rfl⟩
  · rw [hfault]
    exact ⟨directories_put .., here_put ..⟩
  · rw [hwrite]
    exact ⟨(written_of_moveTo hmoved).1, (written_of_moveTo hmoved).2.1⟩

theorem grows_write (t : FileTree) (p : Path) (text : List Char) (token : String) : Grows t (t.write p text token).1 := by
  obtain ⟨hdirectories, hhere⟩ := t.directories_write p text token
  refine (t.grows_ensureDirectory p.parent).trans ⟨hhere, fun l h => ?_⟩
  rwa [isDirectoryAt, hdirectories]

/-- A write leaves a tree that can be. -/
theorem Sound.write (h : t.Sound) (hp : p.Plain) : (t.write p text token).1.Sound := by
  have hensured := h.ensureDirectory hp.parent
  obtain ⟨hdirectories, hhere⟩ := t.directories_write p text token
  have hfiles (l : Location) : (t.ensureDirectory p.parent).1.fileAt? l = t.fileAt? l := by
    rw [fileAt?, fileAt?, files_ensureDirectory]
  cases hwrite : t.write p text token with
  | mk t' result =>
  rw [hwrite] at hdirectories hhere
  cases result with
  | error fault =>
      refine hensured.congr hdirectories hhere fun l => ?_
      rw [hfiles, fileAt?_of_write_error hwrite]
  | ok _ =>
      obtain ⟨l, hplace, hdirectory, hwritten⟩ := written_of_write hwrite
      have hback : Grows t' (t.ensureDirectory p.parent).1 :=
        ⟨hhere.symm, fun l' h => by rwa [isDirectoryAt, ← hdirectories]⟩
      have hnot : (t.ensureDirectory p.parent).1.isDirectoryAt l = false := by
        rwa [isDirectoryAt, ← hdirectories]
      obtain ⟨m, -, hm, hname, rfl⟩ := hensured.exists_name (hback.place hplace) hnot hp.not_mem_name
      refine (hensured.put (Text.encode text) hm hname hnot).congr ?_ ?_ fun l => ?_
      · rw [hdirectories, directories_put]
      · rw [hhere, here_put]
      · rw [hwritten, fileAt?_put, hfiles]

end Write

end MarkupIds.FileTree
