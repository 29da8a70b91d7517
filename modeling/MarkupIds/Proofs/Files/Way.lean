import Mathlib.Data.List.Induction
import MarkupIds.Proofs.Files.Tree

/-! Where the parts of a path lead, whether or not something stands on the way: a path has a place exactly if
all that it passes through are directories, and in a tree that can be the names below a directory lead to what
stands there. -/

namespace MarkupIds

/-- The path that the first parts of a path make. -/
def Path.first (p : Path) (n : Nat) : Path := { p with parts := p.parts.take n }

/-- The path that goes on along a way. -/
def Path.along (p : Path) (way : List String) : Path := { p with parts := p.parts ++ way }

theorem Path.name_along (p : Path) {way : List String} (h : way ≠ []) : (p.along way).name = way.getLast?.getD "" := by
  rw [Path.name, Path.along, List.getLast?_append_of_ne_nil _ h]

theorem Path.first_first {p : Path} {k n : Nat} (h : k ≤ n) : (p.first n).first k = p.first k := by
  rw [Path.first, Path.first, Path.first, List.take_take, Nat.min_eq_left h]

theorem Path.length_first {p : Path} {n : Nat} (h : n ≤ p.parts.length) : (p.first n).parts.length = n := by
  rw [Path.first, List.length_take, Nat.min_eq_left h]

theorem Path.first_parent {p : Path} {n : Nat} (h : n < p.parts.length) : p.parent.first n = p.first n := by
  rw [Path.first, Path.first, Path.parent, List.dropLast_eq_take, List.take_take, Nat.min_eq_left (Nat.le_sub_one_of_lt h)]

/-- The paths on the way to a parent are on the way to the path. -/
theorem Path.exists_first_parent {p : Path} (hne : p.parts ≠ []) (n : Nat) :
    ∃ k < p.parts.length, p.parent.first n = p.first k := by
  have hpositive := List.length_pos_iff.mpr hne
  refine ⟨min n (p.parts.length - 1), by omega, ?_⟩
  simp only [Path.first, Path.parent, List.dropLast_eq_take, List.take_take]

namespace FileTree

variable {t : FileTree}

/-- The place that the parts of a path name, whatever stands there or on the way. -/
def target (t : FileTree) (p : Path) : Location := p.parts.foldl enter (t.startOf p.root)

theorem follow_append {l r : Location} {parts rest : List String} :
    t.follow l (parts ++ rest) = .ok r ↔ ∃ m, t.follow l parts = .ok m ∧ t.follow m rest = .ok r := by
  induction parts generalizing l with
  | nil => simp [follow]
  | cons part parts ih =>
      rw [List.cons_append, follow_cons, follow_cons]
      split
      next => exact ih
      next => simp

/-- All that some parts pass through before the last of them are directories. -/
theorem follow_eq_ok {l r : Location} {parts : List String} : t.follow l parts = .ok r ↔
    r = parts.foldl enter l ∧ ∀ n < parts.length, t.isDirectoryAt ((parts.take n).foldl enter l) = true := by
  induction parts using List.reverseRecOn generalizing r with
  | nil => exact ⟨fun h => ⟨(Except.ok.inj h).symm, by simp⟩, fun h => congrArg Except.ok h.1.symm⟩
  | append_singleton parts part ih =>
      rw [follow_concat, List.foldl_append, List.length_append]
      constructor
      · rintro ⟨m, hm, hdirectory, rfl⟩
        obtain ⟨rfl, hway⟩ := ih.mp hm
        refine ⟨rfl, fun n hn => ?_⟩
        obtain hn | rfl := Nat.lt_succ_iff_lt_or_eq.mp hn
        · rw [List.take_append_of_le_length (Nat.le_of_lt hn)]
          exact hway n hn
        · rwa [List.take_left]
      · rintro ⟨rfl, hway⟩
        have hlast := hway parts.length (Nat.lt_succ_self _)
        rw [List.take_left] at hlast
        refine ⟨_, ih.mpr ⟨rfl, fun n hn => ?_⟩, hlast, rfl⟩
        have hfirst := hway n (Nat.lt_succ_of_lt hn)
        rwa [List.take_append_of_le_length (Nat.le_of_lt hn)] at hfirst

/-- Where a way ends early, there is no directory. -/
theorem exists_of_follow_error {l m : Location} {parts : List String} {isFile : Bool}
    (h : t.follow l parts = .error (isFile, m)) :
    (∃ n < parts.length, m = (parts.take n).foldl enter l) ∧ t.isDirectoryAt m = false ∧ t.isFileAt m = isFile := by
  induction parts generalizing l with
  | nil => cases h
  | cons part parts ih =>
      rw [follow_cons] at h
      split at h
      next =>
        obtain ⟨⟨n, hn, rfl⟩, hm⟩ := ih h
        exact ⟨⟨n + 1, Nat.succ_lt_succ hn, rfl⟩, hm⟩
      next hdirectory =>
        cases h
        exact ⟨⟨0, Nat.succ_pos _, rfl⟩, Bool.eq_false_iff.mpr hdirectory, rfl⟩

theorem place_eq_ok_iff {p : Path} {l : Location} : t.place p = .ok l ↔
    l = t.target p ∧ ∀ n < p.parts.length, t.isDirectoryAt (t.target (p.first n)) = true := by
  rw [place_eq_ok, follow_eq_ok]
  rfl

theorem find?_eq_some_iff {p : Path} {l : Location} : t.find? p = some l ↔ t.place p = .ok l ∧ t.existsAt l = true := by
  unfold find?
  cases hplace : t.place p with
  | error fault => simp
  | ok m =>
      rw [Option.ite_none_right_eq_some, Option.some.injEq, Except.ok.injEq]
      constructor
      · rintro ⟨hthere, rfl⟩
        exact ⟨rfl, hthere⟩
      · rintro ⟨rfl, hthere⟩
        exact ⟨hthere, rfl⟩

/-- A path whose place cannot be told passes through something that is no directory. -/
theorem exists_of_place_error {p : Path} {fault : FileFault} (h : t.place p = .error fault) :
    ∃ n < p.parts.length, t.isDirectoryAt (t.target (p.first n)) = false ∧
      (fault = .notDirectory p.toString ∧ t.isFileAt (t.target (p.first n)) = true ∨
        fault = .missing p.toString ∧ t.isFileAt (t.target (p.first n)) = false) := by
  unfold place at h
  split at h
  next => cases h
  next isFile m hfollow =>
    obtain ⟨⟨n, hn, rfl⟩, hdirectory, hfile⟩ := exists_of_follow_error hfollow
    refine ⟨n, hn, hdirectory, ?_⟩
    cases isFile with
    | true => exact .inl ⟨(Except.error.inj h).symm, hfile⟩
    | false => exact .inr ⟨(Except.error.inj h).symm, hfile⟩

section Below

variable {isOne : List String → Bool} {l : Location} {places : List Location}

/-- The way from a place to one below it, if it is of some kind. -/
def wayTo? (isOne : List String → Bool) (l m : Location) : Option (List String) :=
  if l.isPrefixOf m && !(m.drop l.length).isEmpty && isOne (m.drop l.length) then some (m.drop l.length) else none

/-- The ways of some kind from a place to others below it. -/
def waysTo (isOne : List String → Bool) (l : Location) (places : List Location) : List (List String) :=
  places.filterMap (wayTo? isOne l)

theorem wayTo?_eq_some {m : Location} {way : List String} :
    wayTo? isOne l m = some way ↔ m = l ++ way ∧ way ≠ [] ∧ isOne way = true := by
  unfold wayTo?
  rw [Option.ite_none_right_eq_some, Option.some.injEq, Bool.and_eq_true, Bool.and_eq_true, List.isPrefixOf_iff_prefix,
    Bool.not_eq_true', List.isEmpty_eq_false_iff]
  constructor
  · rintro ⟨⟨⟨⟨rest, rfl⟩, hne⟩, hone⟩, hway⟩
    rw [List.drop_left] at hne hone hway
    obtain rfl := hway
    exact ⟨rfl, hne, hone⟩
  · rintro ⟨rfl, hne, hone⟩
    rw [List.drop_left]
    exact ⟨⟨⟨List.prefix_append l way, hne⟩, hone⟩, rfl⟩

theorem mem_waysTo {way : List String} : way ∈ waysTo isOne l places ↔ l ++ way ∈ places ∧ way ≠ [] ∧ isOne way = true := by
  rw [waysTo, List.mem_filterMap]
  simp only [wayTo?_eq_some]
  constructor
  · rintro ⟨m, hm, rfl, hway⟩
    exact ⟨hm, hway⟩
  · rintro ⟨hm, hway⟩
    exact ⟨_, hm, rfl, hway⟩

theorem nodup_waysTo (h : places.Nodup) : (waysTo isOne l places).Nodup := by
  refine h.filterMap fun m m' way hm hm' => ?_
  rw [(wayTo?_eq_some.mp hm).1, (wayTo?_eq_some.mp hm').1]

end Below

section Names

theorem foldl_enter_of_isName {l : Location} {way : List String} (h : ∀ n ∈ way, IsName n) :
    way.foldl enter l = l ++ way := by
  induction way generalizing l with
  | nil => rw [List.foldl_nil, List.append_nil]
  | cons n way ih =>
      obtain ⟨hn, hway⟩ := List.forall_mem_cons.mp h
      rw [List.foldl_cons, ih hway, enter_of_isName hn, List.append_assoc, List.singleton_append]

/-- What something stands below is a directory. -/
theorem Sound.isDirectoryAt_of_append (h : t.Sound) {l way : List String} (hne : way ≠ [])
    (hexists : t.existsAt (l ++ way) = true) : t.isDirectoryAt l = true := by
  induction way using List.reverseRecOn with
  | nil => exact absurd rfl hne
  | append_singleton way n ih =>
      have hinside := h.inside _ hexists
      rw [← List.append_assoc, List.dropLast_concat] at hinside
      by_cases hway : way = []
      · rwa [hway, List.append_nil] at hinside
      · exact ih hway (existsAt_of_isDirectoryAt hinside)

/-- The names below a place lead to what stands there. -/
theorem Sound.follow_names (h : t.Sound) {l way : List String} (hexists : t.existsAt (l ++ way) = true) :
    t.follow l way = .ok (l ++ way) := by
  have hnames : ∀ n ∈ way, IsName n := fun n hn => h.named _ hexists n (List.mem_append_right l hn)
  rw [follow_eq_ok, foldl_enter_of_isName hnames]
  refine ⟨rfl, fun n hn => ?_⟩
  rw [foldl_enter_of_isName fun k hk => hnames k (List.mem_of_mem_take hk)]
  have hne : way.drop n ≠ [] := by
    rw [ne_eq, List.drop_eq_nil_iff]
    omega
  refine h.isDirectoryAt_of_append hne ?_
  rwa [List.append_assoc, List.take_append_drop]

theorem Sound.place_along (h : t.Sound) {p : Path} {l way : List String} (hplace : t.place p = .ok l)
    (hexists : t.existsAt (l ++ way) = true) : t.place (p.along way) = .ok (l ++ way) := by
  rw [place_eq_ok] at hplace ⊢
  exact follow_append.mpr ⟨l, hplace, h.follow_names hexists⟩

end Names

end FileTree

end MarkupIds
