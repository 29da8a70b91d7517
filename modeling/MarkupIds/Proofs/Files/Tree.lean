import Mathlib.Data.List.Nodup
import Mathlib.Data.List.Perm.Subperm
import Mathlib.Tactic.Push
import MarkupIds.Files.Tree

/-! Trees of files: what a change of one place does at the others, how paths lead through a tree, and what holds
in every tree that can be: names are names, what stands somewhere stands in a directory, and nothing is both
a file and a directory. -/

namespace MarkupIds

/-- A name of a file or directory. -/
def IsName (n : String) : Prop := n ≠ "" ∧ n ≠ "." ∧ n ≠ ".." ∧ '/' ∉ n.toList

instance (n : String) : Decidable (IsName n) :=
  inferInstanceAs (Decidable (n ≠ "" ∧ n ≠ "." ∧ n ≠ ".." ∧ '/' ∉ n.toList))

/-- No part of the path holds a stroke. -/
def Path.Plain (p : Path) : Prop := ∀ n ∈ p.parts, '/' ∉ n.toList

theorem Path.Plain.not_mem_name {p : Path} (h : p.Plain) : '/' ∉ p.name.toList := by
  rw [Path.name]
  cases hlast : p.parts.getLast? with
  | none => simp
  | some n => exact h n (List.mem_of_getLast? hlast)

theorem Path.Plain.parent {p : Path} (h : p.Plain) : p.parent.Plain :=
  fun n hn => h n (List.dropLast_subset _ hn)

namespace FileTree

variable {t t' : FileTree}

section Places

variable (t) (l l' : Location) (bytes : List UInt8)

theorem fileAt?_put : (t.put l bytes).fileAt? l' = if l' = l then some bytes else t.fileAt? l' := by
  unfold put
  split
  next hfile =>
    have hfound : (t.files.find? fun f => f.1 == l).isSome = true := by
      rw [isFileAt, fileAt?, Option.isSome_map] at hfile
      exact hfile
    have hkey (f : Location × List UInt8) : (if f.1 == l then (l, bytes) else f).1 = f.1 := by
      split
      next h => exact (beq_iff_eq.mp h).symm
      next => rfl
    simp only [fileAt?, List.find?_map, Function.comp_def, hkey, Option.map_map]
    split
    next heq =>
      subst heq
      obtain ⟨f, hf⟩ := Option.isSome_iff_exists.mp hfound
      have hl : f.1 = l' := beq_iff_eq.mp (List.find?_some (p := fun f : Location × List UInt8 => f.1 == l') hf)
      simp [hf, hl]
    next hne =>
      cases hf : t.files.find? fun f => f.1 == l' with
      | none => rfl
      | some f =>
          have hl : f.1 = l' := beq_iff_eq.mp (List.find?_some (p := fun f : Location × List UInt8 => f.1 == l') hf)
          have hfl : f.1 ≠ l := hl ▸ hne
          simp [hfl]
  next hfile =>
    have hnone : t.fileAt? l = none := by simpa [isFileAt] using hfile
    by_cases heq : l' = l
    · subst heq
      rw [fileAt?, Option.map_eq_none_iff] at hnone
      simp [fileAt?, hnone]
    · have hne : l ≠ l' := Ne.symm heq
      simp [fileAt?, heq, hne]

theorem fileAt?_remove : (t.remove l).fileAt? l' = if l' = l then none else t.fileAt? l' := by
  simp only [remove, fileAt?, List.find?_filter]
  split
  next heq =>
    subst heq
    rw [Option.map_eq_none_iff, List.find?_eq_none]
    simp
  next hne =>
    have hsame : (fun f : Location × List UInt8 => decide ((f.1 != l) = true ∧ (f.1 == l') = true)) =
        fun f => f.1 == l' := by
      funext f
      cases h : f.1 == l' with
      | false => simp
      | true => simpa [beq_iff_eq.mp h] using hne
    rw [hsame]

@[simp] theorem directories_put : (t.put l bytes).directories = t.directories := by
  unfold put
  split <;> rfl

@[simp] theorem here_put : (t.put l bytes).here = t.here := by
  unfold put
  split <;> rfl

@[simp] theorem isDirectoryAt_put : (t.put l bytes).isDirectoryAt l' = t.isDirectoryAt l' := by
  rw [isDirectoryAt, directories_put, isDirectoryAt]

@[simp] theorem isDirectoryAt_remove : (t.remove l).isDirectoryAt l' = t.isDirectoryAt l' := rfl

@[simp] theorem isDirectoryAt_nil : t.isDirectoryAt [] = true := rfl

theorem isDirectoryAt_addDirectory :
    (t.addDirectory l).isDirectoryAt l' = (t.isDirectoryAt l' || l' == l) := by
  unfold addDirectory
  split
  next hthere =>
    cases heq : l' == l with
    | false => rw [Bool.or_false]
    | true =>
        rw [beq_iff_eq.mp heq, hthere]
        rfl
  next =>
    simp only [isDirectoryAt, List.contains_eq_mem, List.mem_append, List.mem_singleton, Bool.decide_or, Bool.or_assoc,
      beq_eq_decide]

@[simp] theorem files_addDirectory : (t.addDirectory l).files = t.files := by
  unfold addDirectory
  split <;> rfl

@[simp] theorem here_addDirectory : (t.addDirectory l).here = t.here := by
  unfold addDirectory
  split <;> rfl

end Places

section Paths

/-- The place that a part of a path leads to from a directory. -/
def enter (l : Location) (n : String) : Location :=
  if n == "" || n == "." then l else if n == ".." then l.dropLast else l ++ [n]

theorem enter_of_isName {l : Location} {n : String} (h : IsName n) : enter l n = l ++ [n] := by
  obtain ⟨hempty, hpoint, hup, -⟩ := h
  simp [enter, hempty, hpoint, hup]

theorem follow_cons (l : Location) (n : String) (rest : List String) :
    t.follow l (n :: rest) = if t.isDirectoryAt l then t.follow (enter l n) rest else .error (t.isFileAt l, l) := by
  rw [follow, enter]
  split
  · split
    · rfl
    · split <;> rfl
  · rfl

/-- A way of several parts passes through a directory before its last part. -/
theorem follow_concat {l r : Location} {parts : List String} {n : String} :
    t.follow l (parts ++ [n]) = .ok r ↔ ∃ m, t.follow l parts = .ok m ∧ t.isDirectoryAt m = true ∧ r = enter m n := by
  induction parts generalizing l with
  | nil =>
      rw [List.nil_append, follow_cons]
      constructor
      · intro h
        split at h
        next hdirectory => exact ⟨l, rfl, hdirectory, (Except.ok.inj h).symm⟩
        next => cases h
      · rintro ⟨m, hm, hdirectory, rfl⟩
        obtain rfl := Except.ok.inj hm
        rw [if_pos hdirectory, follow]
  | cons first parts ih =>
      rw [List.cons_append, follow_cons, follow_cons]
      split
      next => exact ih
      next =>
        constructor
        · intro h
          cases h
        · rintro ⟨m, hm, -⟩
          cases hm

theorem place_eq_ok {p : Path} {l : Location} : t.place p = .ok l ↔ t.follow (t.startOf p.root) p.parts = .ok l := by
  unfold place
  cases h : t.follow (t.startOf p.root) p.parts with
  | ok m => simp
  | error e => simp

/-- A path with a last part leads through the directory of its parent. -/
theorem exists_parent_of_place {p : Path} {l : Location} (hne : p.parts ≠ []) (h : t.place p = .ok l) :
    ∃ m, t.place p.parent = .ok m ∧ t.isDirectoryAt m = true ∧ l = enter m p.name := by
  have hparts : p.parts = p.parts.dropLast ++ [p.name] := by
    rw [Path.name, List.getLast?_eq_some_getLast hne, Option.getD_some, List.dropLast_append_getLast]
  rw [place_eq_ok, hparts] at h
  obtain ⟨m, hm, hdirectory, hl⟩ := follow_concat.mp h
  exact ⟨m, place_eq_ok.mpr hm, hdirectory, hl⟩

/-- The tree has all directories of another one, seen from the same place. -/
structure Grows (t t' : FileTree) : Prop where
  here : t'.here = t.here
  directories : ∀ l, t.isDirectoryAt l = true → t'.isDirectoryAt l = true

theorem Grows.refl (t : FileTree) : Grows t t := ⟨rfl, fun _ h => h⟩

theorem Grows.trans {t'' : FileTree} (h : Grows t t') (h' : Grows t' t'') : Grows t t'' :=
  ⟨h'.here.trans h.here, fun l hl => h'.directories l (h.directories l hl)⟩

theorem Grows.follow {start l : Location} {parts : List String} (h : Grows t t') (hfollow : t.follow start parts = .ok l) :
    t'.follow start parts = .ok l := by
  induction parts generalizing start with
  | nil => exact hfollow
  | cons n parts ih =>
      rw [follow_cons] at hfollow ⊢
      split at hfollow
      next hdirectory =>
        rw [if_pos (h.directories _ hdirectory)]
        exact ih hfollow
      next => cases hfollow

/-- A path leads to the same place where directories have been added. -/
theorem Grows.place {p : Path} {l : Location} (h : Grows t t') (hplace : t.place p = .ok l) : t'.place p = .ok l := by
  rw [place_eq_ok] at hplace ⊢
  rw [startOf, h.here]
  exact h.follow hplace

end Paths

section Sound

/-- A tree that can be. -/
structure Sound (t : FileTree) : Prop where
  named : ∀ l, t.existsAt l = true → ∀ n ∈ l, IsName n
  inside : ∀ l, t.existsAt l = true → t.isDirectoryAt l.dropLast = true
  apart : ∀ l, t.isDirectoryAt l = true → t.isFileAt l = false
  here : t.isDirectoryAt t.here = true

/-- No place is listed twice as one of a file, nor as one of a directory. -/
structure Listed (t : FileTree) : Prop where
  files : (t.files.map Prod.fst).Nodup
  directories : t.directories.Nodup

theorem isFileAt_of_mem {f : Location × List UInt8} (h : f ∈ t.files) : t.isFileAt f.1 = true := by
  rw [isFileAt, fileAt?, Option.isSome_map, List.find?_isSome]
  exact ⟨f, h, beq_self_eq_true f.1⟩

theorem isFileAt_iff_mem {l : Location} : t.isFileAt l = true ↔ l ∈ t.files.map Prod.fst := by
  constructor
  · intro h
    rw [isFileAt, fileAt?, Option.isSome_map, Option.isSome_iff_exists] at h
    obtain ⟨f, hf⟩ := h
    have hl : f.1 = l := beq_iff_eq.mp (List.find?_some (p := fun f : Location × List UInt8 => f.1 == l) hf)
    exact List.mem_map.mpr ⟨f, List.mem_of_find?_eq_some hf, hl⟩
  · intro h
    obtain ⟨f, hf, rfl⟩ := List.mem_map.mp h
    exact isFileAt_of_mem hf

theorem existsAt_iff {l : Location} : t.existsAt l = true ↔ t.isDirectoryAt l = true ∨ t.isFileAt l = true := by
  rw [existsAt, Bool.or_eq_true]

theorem mem_of_existsAt {l : Location} (hne : l ≠ []) (h : t.existsAt l = true) :
    l ∈ t.directories ++ t.files.map (·.1) := by
  rw [List.mem_append]
  rw [existsAt, isDirectoryAt, Bool.or_eq_true, Bool.or_eq_true, List.isEmpty_iff, List.contains_iff_mem] at h
  obtain (hnil | hdirectory) | hfile := h
  · exact absurd hnil hne
  · exact .inl hdirectory
  · exact .inr (isFileAt_iff_mem.mp hfile)

/-- Whether a tree can be shows at what its lists name. -/
theorem sound_of_forall
    (hplaces : ∀ l ∈ t.directories ++ t.files.map (·.1), (∀ n ∈ l, IsName n) ∧ t.isDirectoryAt l.dropLast = true)
    (hfiles : ∀ f ∈ t.files, t.isDirectoryAt f.1 = false) (hhere : t.isDirectoryAt t.here = true) : t.Sound where
  named l hl := by
    by_cases hne : l = []
    · rw [hne]
      simp
    · exact (hplaces l (mem_of_existsAt hne hl)).1
  inside l hl := by
    by_cases hne : l = []
    · rw [hne]
      rfl
    · exact (hplaces l (mem_of_existsAt hne hl)).2
  apart l hl := by
    by_contra hfile
    rw [Bool.not_eq_false, isFileAt_iff_mem] at hfile
    obtain ⟨f, hf, rfl⟩ := List.mem_map.mp hfile
    rw [hfiles f hf] at hl
    cases hl
  here := hhere

theorem existsAt_of_isDirectoryAt {l : Location} (h : t.isDirectoryAt l = true) : t.existsAt l = true := by
  rw [existsAt, h, Bool.true_or]

theorem Sound.isDirectoryAt_startOf (h : t.Sound) (root : String) : t.isDirectoryAt (t.startOf root) = true := by
  unfold startOf
  split
  · exact h.here
  · rfl

/-- From a directory, a part leads to a directory unless it is a name. -/
theorem Sound.enter_cases (h : t.Sound) {m : Location} {n : String} (hm : t.isDirectoryAt m = true)
    (hn : '/' ∉ n.toList) : t.isDirectoryAt (enter m n) = true ∨ IsName n ∧ enter m n = m ++ [n] := by
  by_cases hname : IsName n
  · exact .inr ⟨hname, enter_of_isName hname⟩
  · left
    unfold enter
    split
    next => exact hm
    next hplain =>
      split
      next => exact h.inside m (existsAt_of_isDirectoryAt hm)
      next hup =>
        simp only [Bool.or_eq_true, beq_iff_eq, not_or] at hplain hup
        exact absurd ⟨hplain.1, hplain.2, hup, hn⟩ hname

/-- What a path leads to where no directory stands has the path's last part for its name. -/
theorem Sound.exists_name (h : t.Sound) {p : Path} {l : Location} (hplace : t.place p = .ok l)
    (hnot : t.isDirectoryAt l = false) (hplain : '/' ∉ p.name.toList) :
    ∃ m, t.place p.parent = .ok m ∧ t.isDirectoryAt m = true ∧ IsName p.name ∧ l = m ++ [p.name] := by
  have hne : p.parts ≠ [] := by
    intro hnil
    rw [place_eq_ok, hnil] at hplace
    obtain rfl := Except.ok.inj hplace
    rw [h.isDirectoryAt_startOf] at hnot
    cases hnot
  obtain ⟨m, hm, hdirectory, rfl⟩ := exists_parent_of_place hne hplace
  obtain hthere | ⟨hname, henter⟩ := h.enter_cases hdirectory hplain
  · rw [hthere] at hnot
    cases hnot
  · exact ⟨m, hm, hdirectory, hname, henter⟩

theorem existsAt_addDirectory {l l' : Location} :
    (t.addDirectory l).existsAt l' = true ↔ t.existsAt l' = true ∨ l' = l := by
  rw [existsAt, isDirectoryAt_addDirectory, isFileAt, fileAt?, files_addDirectory, existsAt, isFileAt, fileAt?]
  simp only [Bool.or_eq_true, beq_iff_eq]
  exact or_right_comm

theorem Sound.addDirectory (h : t.Sound) {m : Location} {n : String} (hm : t.isDirectoryAt m = true) (hn : IsName n)
    (hfile : t.isFileAt (m ++ [n]) = false) : (t.addDirectory (m ++ [n])).Sound where
  named l hl := by
    obtain hl | rfl := existsAt_addDirectory.mp hl
    · exact h.named l hl
    · intro k hk
      obtain hk | hk := List.mem_append.mp hk
      · exact h.named m (existsAt_of_isDirectoryAt hm) k hk
      · exact List.mem_singleton.mp hk ▸ hn
  inside l hl := by
    rw [isDirectoryAt_addDirectory]
    obtain hl | rfl := existsAt_addDirectory.mp hl
    · rw [h.inside l hl]
      rfl
    · rw [List.dropLast_concat, hm]
      rfl
  apart l hl := by
    have hfiles : (t.addDirectory (m ++ [n])).isFileAt l = t.isFileAt l := by
      rw [isFileAt, fileAt?, files_addDirectory, isFileAt, fileAt?]
    rw [hfiles]
    rw [isDirectoryAt_addDirectory, Bool.or_eq_true, beq_iff_eq] at hl
    obtain hl | rfl := hl
    · exact h.apart l hl
    · exact hfile
  here := by
    rw [isDirectoryAt_addDirectory, here_addDirectory, h.here]
    rfl

theorem Sound.put (h : t.Sound) {m : Location} {n : String} (bytes : List UInt8) (hm : t.isDirectoryAt m = true)
    (hn : IsName n) (hdirectory : t.isDirectoryAt (m ++ [n]) = false) : (t.put (m ++ [n]) bytes).Sound := by
  have hfile {l : Location} (hl : (t.put (m ++ [n]) bytes).isFileAt l = true) : l = m ++ [n] ∨ t.isFileAt l = true := by
    rw [isFileAt, fileAt?_put] at hl
    by_cases heq : l = m ++ [n]
    · exact .inl heq
    · rw [if_neg heq] at hl
      exact .inr hl
  have hexists {l : Location} (hl : (t.put (m ++ [n]) bytes).existsAt l = true) : l = m ++ [n] ∨ t.existsAt l = true := by
    rw [existsAt, isDirectoryAt_put, Bool.or_eq_true] at hl
    rw [existsAt, Bool.or_eq_true]
    obtain hl | hl := hl
    · exact .inr (.inl hl)
    · exact (hfile hl).imp_right .inr
  constructor
  · intro l hl
    obtain rfl | hl := hexists hl
    · intro k hk
      obtain hk | hk := List.mem_append.mp hk
      · exact h.named m (existsAt_of_isDirectoryAt hm) k hk
      · exact List.mem_singleton.mp hk ▸ hn
    · exact h.named l hl
  · intro l hl
    rw [isDirectoryAt_put]
    obtain rfl | hl := hexists hl
    · rw [List.dropLast_concat, hm]
    · exact h.inside l hl
  · intro l hl
    rw [isDirectoryAt_put] at hl
    by_contra hfound
    rw [Bool.not_eq_false] at hfound
    obtain rfl | hfound := hfile hfound
    · rw [hdirectory] at hl
      cases hl
    · rw [h.apart l hl] at hfound
      cases hfound
  · rw [isDirectoryAt_put, here_put, h.here]

/-- Whether a tree can be goes by what stands at its places. -/
theorem Sound.congr (h : t.Sound) (hdirectories : t'.directories = t.directories) (hhere : t'.here = t.here)
    (hfiles : ∀ l, t'.fileAt? l = t.fileAt? l) : t'.Sound := by
  have hdirectory (l : Location) : t'.isDirectoryAt l = t.isDirectoryAt l := by
    rw [isDirectoryAt, isDirectoryAt, hdirectories]
  have hfile (l : Location) : t'.isFileAt l = t.isFileAt l := by rw [isFileAt, isFileAt, hfiles]
  have hexists (l : Location) : t'.existsAt l = t.existsAt l := by rw [existsAt, existsAt, hdirectory, hfile]
  exact ⟨fun l hl => h.named l (hexists l ▸ hl), fun l hl => (hdirectory _).trans (h.inside l (hexists l ▸ hl)),
    fun l hl => (hfile l).trans (h.apart l (hdirectory l ▸ hl)), by rw [hhere, hdirectory, h.here]⟩

end Sound

end FileTree

end MarkupIds
