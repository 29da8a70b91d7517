import MarkupIds.Proofs.Files.Way
import MarkupIds.Proofs.Files.Write

/-! Writing to a path as a whole: whether it goes well shows at the tree before it, and whichever way it ends, no
file but the one at the path has changed, nothing temporary is left, and nothing but directories that were missing
on the way has been made. -/

namespace MarkupIds.FileTree

variable {t t' : FileTree} {p : Path}

theorem target_congr (hhere : t'.here = t.here) (p : Path) : t'.target p = t.target p := by
  rw [target, target, startOf, startOf, hhere]

section Directories

/-- A file stands where a way would have to go through a directory. -/
def BarredAt (t : FileTree) (l : Location) : Prop := t.isFileAt l = true ∧ t.isDirectoryAt l = false

/-- Directories have been made where nothing was, at a path or on the way to it. -/
structure Widened (t t' : FileTree) (p : Path) : Prop where
  files : t'.files = t.files
  here : t'.here = t.here
  made : ∃ made, t'.directories = t.directories ++ made ∧
    ∀ l ∈ made, t.existsAt l = false ∧ ∃ n, l = t.target (p.first n)

namespace Widened

theorem refl (t : FileTree) (p : Path) : Widened t t p := ⟨rfl, rfl, [], by simp⟩

theorem isDirectoryAt_iff (h : Widened t t' p) : ∃ made : List Location,
    (∀ l ∈ made, t.existsAt l = false ∧ ∃ n, l = t.target (p.first n)) ∧
      ∀ l, t'.isDirectoryAt l = true ↔ t.isDirectoryAt l = true ∨ l ∈ made := by
  obtain ⟨made, hmade, hmissing⟩ := h.made
  refine ⟨made, hmissing, fun l => ?_⟩
  rw [isDirectoryAt, isDirectoryAt, hmade]
  simp [or_assoc]

theorem grows (h : Widened t t' p) : Grows t t' := by
  obtain ⟨made, -, hdirectory⟩ := h.isDirectoryAt_iff
  exact ⟨h.here, fun l hl => (hdirectory l).mpr (.inl hl)⟩

theorem isFileAt (h : Widened t t' p) (l : Location) : t'.isFileAt l = t.isFileAt l := by
  rw [FileTree.isFileAt, FileTree.isFileAt, fileAt?, fileAt?, h.files]

/-- No directory is made where a file bars the way. -/
theorem barredAt_iff (h : Widened t t' p) {l : Location} : t'.BarredAt l ↔ t.BarredAt l := by
  obtain ⟨made, hmissing, hdirectory⟩ := h.isDirectoryAt_iff
  unfold BarredAt
  rw [h.isFileAt]
  refine and_congr_right fun hfile => ?_
  rw [Bool.eq_false_iff, Bool.eq_false_iff, ne_eq, ne_eq, hdirectory, not_or]
  refine and_iff_left fun hl => ?_
  have hthere := existsAt_iff.mpr (.inr hfile)
  rw [(hmissing l hl).1] at hthere
  cases hthere

theorem addDirectory (h : Widened t t' p) {l : Location} (hmissing : t'.existsAt l = false)
    (hl : ∃ n, l = t.target (p.first n)) : Widened t (t'.addDirectory l) p := by
  obtain ⟨made, hmade, hmissing'⟩ := h.made
  rw [existsAt, Bool.or_eq_false_iff] at hmissing
  refine ⟨(t'.files_addDirectory l).trans h.files, (t'.here_addDirectory l).trans h.here, made ++ [l], ?_, ?_⟩
  · rw [FileTree.addDirectory, if_neg (Bool.eq_false_iff.mp hmissing.1), hmade, List.append_assoc]
  · intro m hm
    obtain hm | hm := List.mem_append.mp hm
    · exact hmissing' m hm
    · obtain rfl := List.mem_singleton.mp hm
      refine ⟨?_, hl⟩
      rw [existsAt, Bool.or_eq_false_iff, ← h.isFileAt]
      refine ⟨?_, hmissing.2⟩
      by_contra hdirectory
      rw [h.grows.directories m (Bool.not_eq_false _ ▸ hdirectory)] at hmissing
      cases hmissing.1

end Widened

theorem widened_ensureFirst (t : FileTree) (p : Path) (n : Nat) : Widened t (t.ensureFirst p n).1 p := by
  refine ensureFirst_induct (P := fun t' => Widened t t' p) ?_ (Widened.refl t p)
  intro t₁ t₂ k h hmade
  obtain ⟨l, hplace, hmissing, rfl⟩ := makeDirectory_eq_ok.mp hmade
  have hl := (place_eq_ok_iff.mp hplace).1
  rw [target_congr h.here] at hl
  exact h.addDirectory hmissing ⟨k, hl⟩

/-- All that the first `n` parts of a path pass through are directories, and so is what they lead to. -/
def OpenTo (t : FileTree) (p : Path) (n : Nat) : Prop := ∀ k ≤ n, t.isDirectoryAt (t.target (p.first k)) = true

theorem OpenTo.mono {n : Nat} (h : t.OpenTo p n) (hgrows : Grows t t') : t'.OpenTo p n := by
  intro k hk
  rw [target_congr hgrows.here]
  exact hgrows.directories _ (h k hk)

theorem grows_unlessThere (t : FileTree) (p : Path) : Grows t (t.makeDirectoryUnlessThere p).1 := by
  obtain hsame | hmade := t.makeDirectoryUnlessThere_cases p
  · rw [hsame]
    exact Grows.refl t
  · obtain ⟨l, -, -, heq⟩ := makeDirectory_eq_ok.mp hmade
    rw [heq]
    exact t.grows_addDirectory l

/-- Where a path has a place, a directory can be made there unless a file has taken it. -/
theorem unlessThere_of_place {l : Location} (hplace : t.place p = .ok l) :
    ((t.makeDirectoryUnlessThere p).2 = .ok () ∧ (t.makeDirectoryUnlessThere p).1.isDirectoryAt l = true) ∨
      (∃ fault, (t.makeDirectoryUnlessThere p).2 = .error fault) ∧ t.BarredAt l := by
  have hmake : t.makeDirectory p = if t.existsAt l then .error (.taken p.toString) else .ok (t.addDirectory l) := by
    rw [makeDirectory, hplace]
    rfl
  have hdirectory : t.isDirectory p = (t.existsAt l && t.isDirectoryAt l) := by
    rw [isDirectory, find?, hplace]
    cases hthere : t.existsAt l <;> simp [hthere]
  unfold makeDirectoryUnlessThere
  rw [hmake]
  cases hthere : t.existsAt l with
  | false => exact .inl ⟨rfl, by rw [if_neg Bool.false_ne_true, isDirectoryAt_addDirectory, beq_self_eq_true, Bool.or_true]⟩
  | true =>
      rw [hthere, Bool.true_and] at hdirectory
      rw [if_pos rfl, hdirectory]
      cases hl : t.isDirectoryAt l with
      | true => exact .inl ⟨rfl, hl⟩
      | false =>
          obtain hthere | hfile := existsAt_iff.mp hthere
          · rw [hl] at hthere
            cases hthere
          · exact .inr ⟨⟨_, rfl⟩, hfile, hl⟩

/-- Where a path has no place, no directory is made. -/
theorem unlessThere_of_error {fault : FileFault} (hplace : t.place p = .error fault) :
    t.makeDirectory p = .error fault ∧ t.makeDirectoryUnlessThere p = (t, .error fault) := by
  have hmake : t.makeDirectory p = .error fault := by
    rw [makeDirectory, hplace]
    rfl
  refine ⟨hmake, ?_⟩
  rw [makeDirectoryUnlessThere, hmake, isDirectory, find?, hplace]
  rfl

/-- The first `n + 1` parts of a path have a place exactly if the way is open up to the one before. -/
theorem place_first_succ {n : Nat} (hn : n < p.parts.length) :
    t.place (p.first (n + 1)) = .ok (t.target (p.first (n + 1))) ↔ t.OpenTo p n := by
  rw [place_eq_ok_iff, and_iff_right rfl, Path.length_first hn]
  refine forall_congr' fun k => ?_
  rw [Nat.lt_succ_iff]
  refine forall_congr' fun hk => ?_
  rw [Path.first_first (Nat.le_succ_of_le hk)]

/-- Where the way is open up to the part before, a directory can be made unless a file has taken its place. -/
theorem unlessThere_first {n : Nat} (hopen : ∀ k < n, t.isDirectoryAt (t.target (p.first k)) = true)
    (hplace : t.place (p.first n) = .ok (t.target (p.first n))) :
    ((t.makeDirectoryUnlessThere (p.first n)).2 = .ok () ∧ (t.makeDirectoryUnlessThere (p.first n)).1.OpenTo p n) ∨
      (∃ fault, (t.makeDirectoryUnlessThere (p.first n)).2 = .error fault) ∧
        ∃ k ≤ n, t.BarredAt (t.target (p.first k)) := by
  obtain ⟨hok, hlast⟩ | ⟨hfault, hbarred⟩ := unlessThere_of_place hplace
  · refine .inl ⟨hok, fun k hk => ?_⟩
    have hgrows := grows_unlessThere t (p.first n)
    rw [target_congr hgrows.here]
    obtain hk | rfl := Nat.lt_or_eq_of_le hk
    · exact hgrows.directories _ (hopen k hk)
    · exact hlast
  · exact .inr ⟨hfault, n, Nat.le_refl n, hbarred⟩

theorem ensureFirst_succ_of_ne {n : Nat} (h : ∀ path, t.place (p.first (n + 1)) ≠ .error (.missing path)) :
    t.ensureFirst p (n + 1) = t.makeDirectoryUnlessThere (p.first (n + 1)) := by
  rw [ensureFirst]
  split
  next path hmissing =>
    cases hplace : t.place (p.first (n + 1)) with
    | error fault =>
        obtain rfl := Except.error.inj ((unlessThere_of_error hplace).1.symm.trans hmissing)
        exact absurd hplace (h path)
    | ok l =>
        change t.makeDirectory (p.first (n + 1)) = _ at hmissing
        rw [makeDirectory, hplace] at hmissing
        change (if t.existsAt l then _ else _) = _ at hmissing
        split at hmissing <;> cases hmissing
  next => rfl

/-- Where a directory on the way is missing, the way up to it is made first. -/
theorem ensureFirst_succ_of_missing {n : Nat} {path : String} (t₁ : FileTree)
    (h : t.place (p.first (n + 1)) = .error (.missing path)) :
    (t.ensureFirst p n = (t₁, .ok ()) → t.ensureFirst p (n + 1) = t₁.makeDirectoryUnlessThere (p.first (n + 1))) ∧
      ∀ fault, t.ensureFirst p n = (t₁, .error fault) → t.ensureFirst p (n + 1) = (t₁, .error fault) := by
  have hmake : t.makeDirectory { p with parts := p.parts.take (n + 1) } = .error (.missing path) :=
    (unlessThere_of_error h).1
  constructor
  · intro hfirst
    simp only [ensureFirst, hmake, hfirst]
    rfl
  · intro fault hfirst
    simp only [ensureFirst, hmake, hfirst]

/-- Directories can be made at the first parts of a path unless a file bars the way. -/
theorem ensureFirst_spec {n : Nat} (hn : n ≤ p.parts.length) :
    ((t.ensureFirst p n).2 = .ok () ∧ (t.ensureFirst p n).1.OpenTo p n) ∨
      (∃ fault, (t.ensureFirst p n).2 = .error fault) ∧ ∃ k ≤ n, t.BarredAt (t.target (p.first k)) := by
  induction n with
  | zero => exact unlessThere_first (fun k hk => absurd hk (Nat.not_lt_zero k)) rfl
  | succ n ih =>
      cases hplace : t.place (p.first (n + 1)) with
      | ok l =>
          obtain rfl := (place_eq_ok_iff.mp hplace).1
          rw [ensureFirst_succ_of_ne (by simp [hplace])]
          exact unlessThere_first (fun k hk => (place_first_succ hn).mp hplace k (Nat.le_of_lt_succ hk)) hplace
      | error fault =>
          obtain ⟨k, hk, hnot, ⟨rfl, hfile⟩ | ⟨rfl, -⟩⟩ := exists_of_place_error hplace
          · rw [ensureFirst_succ_of_ne (by simp [hplace]), (unlessThere_of_error hplace).2]
            rw [Path.length_first hn] at hk
            rw [Path.first_first (Nat.le_of_lt hk)] at hnot hfile
            exact .inr ⟨⟨_, rfl⟩, k, Nat.le_of_lt hk, hfile, hnot⟩
          · have hwidened := widened_ensureFirst t p n
            cases hfirst : t.ensureFirst p n with
            | mk t₁ result =>
            rw [hfirst] at ih hwidened
            obtain ⟨hmade, hfailed⟩ := ensureFirst_succ_of_missing t₁ hplace
            obtain ⟨rfl, hopen⟩ | ⟨⟨fault, rfl⟩, k, hk, hbarred⟩ := ih (Nat.le_of_succ_le hn)
            · rw [hmade hfirst]
              obtain h | ⟨hfault, k, hk, hbarred⟩ := unlessThere_first
                (fun k hk => hopen k (Nat.le_of_lt_succ hk)) ((place_first_succ hn).mpr hopen)
              · exact .inl h
              · rw [target_congr hwidened.here, hwidened.barredAt_iff] at hbarred
                exact .inr ⟨hfault, k, hk, hbarred⟩
            · rw [hfailed fault hfirst]
              exact .inr ⟨⟨fault, rfl⟩, k, Nat.le_succ_of_le hk, hbarred⟩

end Directories

section Write

variable {text : List Char} {token : String}

/-- A path to which a text can be written: it ends in a name, no file bars the way, and what it leads to is neither
a directory nor a part of the way. -/
structure Admits (t : FileTree) (p : Path) : Prop where
  named : p.parts ≠ [] ∧ p.name ≠ ".."
  way : ∀ n < p.parts.length, ¬t.BarredAt (t.target (p.first n))
  free : t.isDirectoryAt (t.target p) = false
  apart : ∀ n < p.parts.length, t.target (p.first n) ≠ t.target p

/-- Once the directories are there, whether a text can be written shows at the end of the path. -/
theorem admits_iff_of_open (h : Widened t t' p.parent) (hopen : t'.OpenTo p.parent p.parent.parts.length) :
    t.Admits p ↔ (p.parts ≠ [] ∧ p.name ≠ "..") ∧ t'.isDirectoryAt (t'.target p) = false := by
  obtain ⟨made, hmissing, hdirectory⟩ := h.isDirectoryAt_iff
  rw [target_congr h.here]
  constructor
  · intro hadmits
    refine ⟨hadmits.named, ?_⟩
    rw [Bool.eq_false_iff, ne_eq, hdirectory, not_or]
    refine ⟨Bool.eq_false_iff.mp hadmits.free, fun hmade => ?_⟩
    obtain ⟨-, n, hn⟩ := hmissing _ hmade
    obtain ⟨k, hk, hfirst⟩ := Path.exists_first_parent hadmits.named.1 n
    rw [hfirst] at hn
    exact hadmits.apart k hk hn.symm
  · rintro ⟨hnamed, hfree⟩
    have hway (n : Nat) (hn : n < p.parts.length) : t'.isDirectoryAt (t.target (p.first n)) = true := by
      have hdirectory := hopen n (by rw [Path.parent, List.length_dropLast]; omega)
      rwa [target_congr h.here, Path.first_parent hn] at hdirectory
    refine ⟨hnamed, fun n hn hbarred => ?_, ?_, fun n hn heq => ?_⟩
    · have hnot := (h.barredAt_iff.mpr hbarred).2
      rw [hway n hn] at hnot
      cases hnot
    · rw [Bool.eq_false_iff, ne_eq, hdirectory, not_or] at hfree
      exact Bool.eq_false_iff.mpr hfree.1
    · rw [← heq, hway n hn] at hfree
      cases hfree

/-- With a temporary file in the directory of a path, the move to the path goes well if it ends in a name that no
directory has. -/
theorem exists_moveTo_iff (source : Location) (hopen : t.OpenTo p.parent p.parent.parts.length) :
    (∃ t', t.moveTo source p = .ok t') ↔ (p.parts ≠ [] ∧ p.name ≠ "..") ∧ t.isDirectoryAt (t.target p) = false := by
  have hplace (hne : p.parts ≠ []) : t.place p = .ok (t.target p) := by
    refine place_eq_ok_iff.mpr ⟨rfl, fun n hn => ?_⟩
    rw [← Path.first_parent hn]
    exact hopen n (by rw [Path.parent, List.length_dropLast]; omega)
  have hnamed : (p.parts.isEmpty || p.name == "..") = false ↔ p.parts ≠ [] ∧ p.name ≠ ".." := by
    simp [List.isEmpty_eq_false_iff]
  simp only [moveTo_eq_ok, hnamed]
  constructor
  · rintro ⟨t', l, hl, hnamed, hdirectory, -⟩
    rw [hplace hnamed.1] at hl
    obtain rfl := Except.ok.inj hl
    exact ⟨hnamed, hdirectory⟩
  · rintro ⟨hnamed, hdirectory⟩
    exact ⟨_, _, hplace hnamed.1, hnamed, hdirectory, rfl⟩

theorem write_of_error {fault : FileFault} (h : t.ensureDirectory p.parent = (t', .error fault)) :
    t.write p text token = (t', .error fault) := by
  rw [write, h]

theorem write_of_ok {directory : Location} (h : t.ensureDirectory p.parent = (t', .ok ()))
    (hplace : t'.place p.parent = .ok directory) :
    t.write p text token =
      match (t'.withTemporary p directory text token).moveTo (t'.temporaryPlace p directory token) p with
      | .ok t => (t, .ok ())
      | .error fault =>
        ((t'.withTemporary p directory text token).remove (t'.temporaryPlace p directory token), .error fault) := by
  rw [write, h]
  dsimp only
  rw [hplace]
  rfl

/-- Whether a text can be written to a path shows before anything is done. -/
theorem write_eq_ok_iff : (t.write p text token).2 = .ok () ↔ t.Admits p := by
  have hwidened := widened_ensureFirst t p.parent p.parent.parts.length
  have hspec := ensureFirst_spec (t := t) (p := p.parent) (Nat.le_refl _)
  change Widened t (t.ensureDirectory p.parent).1 p.parent at hwidened
  change (t.ensureDirectory p.parent).2 = _ ∧ (t.ensureDirectory p.parent).1.OpenTo _ _ ∨
    (∃ fault, (t.ensureDirectory p.parent).2 = _) ∧ _ at hspec
  cases hensured : t.ensureDirectory p.parent with
  | mk t₁ result =>
  rw [hensured] at hwidened hspec
  obtain ⟨hok, hopen⟩ | ⟨⟨fault, hfault⟩, k, hk, hbarred⟩ := hspec
  · obtain rfl : result = .ok () := hok
    have hplace : t₁.place p.parent = .ok (t₁.target p.parent) :=
      place_eq_ok_iff.mpr ⟨rfl, fun n hn => hopen n (Nat.le_of_lt hn)⟩
    have hgrows : Grows t₁ (t₁.withTemporary p (t₁.target p.parent) text token) :=
      ⟨here_put .., fun l hl => by rwa [withTemporary, isDirectoryAt_put]⟩
    have hmove := exists_moveTo_iff (t₁.temporaryPlace p (t₁.target p.parent) token) (hopen.mono hgrows)
    rw [target_congr hgrows.here, withTemporary, isDirectoryAt_put, ← withTemporary] at hmove
    rw [write_of_ok hensured hplace, admits_iff_of_open hwidened hopen, ← hmove]
    split
    next t₂ hmoved => exact ⟨fun _ => ⟨t₂, hmoved⟩, fun _ => rfl⟩
    next fault hfailed =>
      rw [hfailed]
      constructor
      · intro h
        cases h
      · rintro ⟨t₂, h⟩
        cases h
  · obtain rfl : result = .error fault := hfault
    rw [write_of_error hensured]
    constructor
    · intro h
      cases h
    · intro h
      obtain ⟨n, hn, hfirst⟩ := Path.exists_first_parent h.named.1 k
      rw [hfirst] at hbarred
      exact absurd hbarred (h.way n hn)

/-- Taking the temporary file away leaves the very files that were there before it. -/
theorem files_remove_withTemporary (t : FileTree) (p : Path) (directory : Location) (text : List Char)
    (token : String) :
    ((t.withTemporary p directory text token).remove (t.temporaryPlace p directory token)).files = t.files := by
  have hnone := t.fileAt?_temporaryPlace p directory token
  have hfile : t.isFileAt (t.temporaryPlace p directory token) = false := by rw [isFileAt, hnone, Option.isSome_none]
  rw [withTemporary, put, if_neg (Bool.eq_false_iff.mp hfile), remove, List.filter_append, List.filter_eq_self.mpr]
  · simp
  · intro f hf
    rw [bne_iff_ne]
    intro heq
    rw [← heq, isFileAt_of_mem hf] at hfile
    cases hfile

/-- A write that fails leaves the very files that were there. -/
theorem files_of_write_error {fault : FileFault} (h : t.write p text token = (t', .error fault)) :
    t'.files = t.files := by
  have hensured := t.files_ensureDirectory p.parent
  obtain ⟨t₁, rfl, ⟨fault, hfault⟩ | ⟨directory, ⟨fault, hfault⟩ | ⟨t₂, -, hwrite⟩⟩⟩ := t.write_cases p text token
  · obtain rfl := congrArg Prod.fst (hfault.symm.trans h)
    exact hensured
  · obtain rfl := congrArg Prod.fst (hfault.symm.trans h)
    rw [files_remove_withTemporary, hensured]
  · rw [hwrite] at h
    cases h

/-- A write does all of its work or none of it: it goes well exactly if the path admits it, and then the file at the
path holds the text and every other file is what it was; or else the files are the very files of before. Either way
nothing has been made but directories that were missing on the way. -/
theorem write_atomic (t : FileTree) (p : Path) (text : List Char) (token : String) :
    let t' := (t.write p text token).1
    (match (t.write p text token).2 with
      | .ok () => t.Admits p ∧ Written t t' p (Text.encode text) (t.target p)
      | .error _ => ¬t.Admits p ∧ t'.files = t.files) ∧
      t'.here = t.here ∧
      ∃ made, t'.directories = t.directories ++ made ∧
        ∀ l ∈ made, t.existsAt l = false ∧ ∃ n, l = t.target (p.parent.first n) := by
  intro t'
  have hwidened := widened_ensureFirst t p.parent p.parent.parts.length
  obtain ⟨hdirectories, hhere⟩ := t.directories_write p text token
  refine ⟨?_, hhere.trans hwidened.here, ?_⟩
  · have hadmits : (t.write p text token).2 = .ok () ↔ t.Admits p := write_eq_ok_iff
    cases hresult : (t.write p text token).2 with
    | ok _ =>
        obtain ⟨l, hwritten⟩ := written_of_write (Prod.ext rfl hresult)
        have hl := (place_eq_ok_iff.mp hwritten.place).1
        rw [target_congr (hhere.trans hwidened.here)] at hl
        exact ⟨hadmits.mp hresult, hl ▸ hwritten⟩
    | error fault =>
        refine ⟨fun h => ?_, files_of_write_error (Prod.ext rfl hresult)⟩
        rw [hadmits.mpr h] at hresult
        cases hresult
  · rw [hdirectories]
    exact hwidened.made

end Write

end MarkupIds.FileTree
