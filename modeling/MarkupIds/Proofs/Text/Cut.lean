import Mathlib.Data.List.TakeDrop
import Mathlib.Data.List.TakeWhile
import MarkupIds.Text.Cut

/-! What cutting a text finds: the first place at which an end is recognised, with nothing lost before or behind it. What
is read up to a closing bracket does not depend on what follows the bracket. -/

namespace MarkupIds.Text

theorem after?_eq_some_iff {head s rest : List Char} :
    after? head s = some rest ↔ s = head ++ rest := by
  unfold after?
  constructor
  · intro h
    split at h
    next hp =>
      cases h
      obtain ⟨rest, rfl⟩ := List.isPrefixOf_iff_prefix.mp hp
      rw [List.drop_left]
    next => cases h
  · rintro rfl
    rw [if_pos (List.isPrefixOf_iff_prefix.mpr (List.prefix_append head rest)), List.drop_left]

theorem after?_cons_self {c : Char} {s : List Char} : after? [c] (c :: s) = some s :=
  after?_eq_some_iff.mpr rfl

/-- A cut is made where an end is recognised, and at no place before that. -/
theorem cutBy_eq_some_iff {close : List Char → Option (List Char)} {s before rest : List Char} :
    cutBy close s = some (before, rest) ↔
      ∃ mark, s = before ++ mark ∧ close mark = some rest ∧
        ∀ a c b, before = a ++ c :: b → close (c :: b ++ mark) = none := by
  induction s generalizing before with
  | nil =>
      rw [cutBy]
      constructor
      · intro h
        obtain ⟨r, hr, he⟩ := Option.map_eq_some_iff.mp h
        cases he
        exact ⟨[], rfl, hr, by simp⟩
      · rintro ⟨mark, hs, hclose, -⟩
        obtain ⟨rfl, rfl⟩ := List.append_eq_nil_iff.mp hs.symm
        rw [hclose]
        rfl
  | cons c s ih =>
      rw [cutBy]
      cases hc : close (c :: s) with
      | some r =>
          constructor
          · intro h
            cases h
            exact ⟨c :: s, rfl, hc, by simp⟩
          · rintro ⟨mark, hs, hclose, hnone⟩
            cases before with
            | nil =>
                rw [List.nil_append] at hs
                subst hs
                rw [hc] at hclose
                cases hclose
                rfl
            | cons d before =>
                have hfirst := hnone [] d before rfl
                rw [← hs, hc] at hfirst
                cases hfirst
      | none =>
          constructor
          · intro h
            obtain ⟨⟨b, r⟩, hr, he⟩ := Option.map_eq_some_iff.mp h
            cases he
            obtain ⟨mark, rfl, hclose, hnone⟩ := ih.mp hr
            refine ⟨mark, rfl, hclose, ?_⟩
            intro a d b' hsplit
            cases a with
            | nil =>
                obtain ⟨rfl, rfl⟩ := List.cons.inj hsplit
                exact hc
            | cons _ a => exact hnone a d b' (List.cons.inj hsplit).2
          · rintro ⟨mark, hs, hclose, hnone⟩
            cases before with
            | nil =>
                rw [List.nil_append] at hs
                subst hs
                rw [hc] at hclose
                cases hclose
            | cons d before =>
                obtain ⟨rfl, rfl⟩ := List.cons.inj hs
                have hcut := ih.mpr ⟨mark, rfl, hclose,
                  fun a e b' h => hnone (c :: a) e b' (congrArg (c :: ·) h)⟩
                rw [hcut]
                rfl

/-- There is no cut where no end is recognised at any place. -/
theorem cutBy_eq_none_iff {close : List Char → Option (List Char)} {s : List Char} :
    cutBy close s = none ↔ ∀ a b, s = a ++ b → close b = none := by
  induction s with
  | nil =>
      rw [cutBy, Option.map_eq_none_iff]
      constructor
      · intro h a b hs
        obtain ⟨rfl, rfl⟩ := List.append_eq_nil_iff.mp hs.symm
        exact h
      · intro h
        exact h [] [] rfl
  | cons c s ih =>
      rw [cutBy]
      constructor
      · intro h a b hs
        split at h
        · cases h
        next hc =>
          cases a with
          | nil => exact (List.nil_append b ▸ hs) ▸ hc
          | cons d a => exact ih.mp (Option.map_eq_none_iff.mp h) a b (List.cons.inj hs).2
      · intro h
        rw [h [] (c :: s) rfl]
        exact Option.map_eq_none_iff.mpr (ih.mpr fun a b hs => h (c :: a) b (congrArg (c :: ·) hs))

theorem cutAt_eq_some {mark s before rest : List Char} (h : cutAt mark s = some (before, rest)) :
    s = before ++ (mark ++ rest) := by
  obtain ⟨m, rfl, hm, -⟩ := cutBy_eq_some_iff.mp h
  rw [after?_eq_some_iff.mp hm]

/-- Cutting at a single character finds its first occurrence. -/
theorem cutAt_singleton_iff {c : Char} {s before rest : List Char} :
    cutAt [c] s = some (before, rest) ↔ s = before ++ c :: rest ∧ c ∉ before := by
  rw [cutAt, cutBy_eq_some_iff]
  constructor
  · rintro ⟨mark, rfl, hm, hnone⟩
    refine ⟨by rw [after?_eq_some_iff.mp hm]; rfl, ?_⟩
    intro hmem
    obtain ⟨a, b, rfl⟩ := List.append_of_mem hmem
    have hhead := hnone a c b rfl
    rw [List.cons_append, after?_cons_self] at hhead
    cases hhead
  · rintro ⟨rfl, hmem⟩
    refine ⟨c :: rest, rfl, after?_eq_some_iff.mpr rfl, ?_⟩
    rintro a d b rfl
    have hne : d ≠ c := by
      rintro rfl
      exact hmem (List.mem_append_right a List.mem_cons_self)
    by_contra hsome
    obtain ⟨r, hr⟩ := Option.ne_none_iff_exists'.mp hsome
    exact hne (List.cons.inj (after?_eq_some_iff.mp hr)).1

theorem cutAt_singleton_eq_none_iff {c : Char} {s : List Char} :
    cutAt [c] s = none ↔ c ∉ s := by
  constructor
  · intro h hmem
    obtain ⟨a, b, rfl⟩ := List.append_of_mem hmem
    have hnone := cutBy_eq_none_iff.mp h a (c :: b) rfl
    rw [after?_cons_self] at hnone
    cases hnone
  · intro hmem
    refine cutBy_eq_none_iff.mpr ?_
    rintro a b rfl
    by_contra hsome
    obtain ⟨r, hr⟩ := Option.ne_none_iff_exists'.mp hsome
    rw [after?_eq_some_iff.mp hr] at hmem
    exact hmem (List.mem_append_right a List.mem_cons_self)

section Runs

variable {q : Char → Bool} {s t : List Char}

/-- A run that ends within a text ends there in any longer one. -/
theorem takeWhile_append_of_mem {c : Char} (hmem : c ∈ s) (hc : q c = false) :
    (s ++ t).takeWhile q = s.takeWhile q := by
  obtain ⟨a, b, rfl⟩ := List.append_of_mem hmem
  induction a with
  | nil => simp [hc]
  | cons d a ih => by_cases hd : q d <;> simp_all

theorem dropWhile_append_of_mem {c : Char} (hmem : c ∈ s) (hc : q c = false) :
    (s ++ t).dropWhile q = s.dropWhile q ++ t := by
  obtain ⟨a, b, rfl⟩ := List.append_of_mem hmem
  induction a with
  | nil => simp [hc]
  | cons d a ih => by_cases hd : q d <;> simp_all

/-- A run stops in front of a text whose first character does not belong to it. -/
theorem takeWhile_append_of_head (h : ∀ c, t.head? = some c → q c = false) :
    (s ++ t).takeWhile q = s.takeWhile q := by
  induction s with
  | nil =>
      cases t with
      | nil => rfl
      | cons c t => simp [h c rfl]
  | cons d s ih => by_cases hd : q d <;> simp_all

theorem dropWhile_append_of_head (h : ∀ c, t.head? = some c → q c = false) :
    (s ++ t).dropWhile q = s.dropWhile q ++ t := by
  induction s with
  | nil =>
      cases t with
      | nil => rfl
      | cons c t => simp [h c rfl]
  | cons d s ih => by_cases hd : q d <;> simp_all

/-- A run of characters in front of one that does not belong to it. -/
theorem takeWhile_append_eq {p : Char → Bool} {run s : List Char} (hrun : ∀ c ∈ run, p c = true)
    (hs : ∀ c, s.head? = some c → p c = false) : (run ++ s).takeWhile p = run := by
  rw [takeWhile_append_of_head hs, List.takeWhile_eq_self_iff.mpr hrun]

theorem dropWhile_append_eq {p : Char → Bool} {run s : List Char} (hrun : ∀ c ∈ run, p c = true)
    (hs : ∀ c, s.head? = some c → p c = false) : (run ++ s).dropWhile p = s := by
  rw [dropWhile_append_of_head hs, List.dropWhile_eq_nil_iff.mpr hrun, List.nil_append]

theorem span_append {p : Char → Bool} {run s : List Char} (hrun : ∀ c ∈ run, p c = true)
    (hs : ∀ c, s.head? = some c → p c = false) : (run ++ s).span p = (run, s) := by
  rw [List.span_eq_takeWhile_dropWhile, takeWhile_append_eq hrun hs, dropWhile_append_eq hrun hs]

theorem mem_dropWhile {c : Char} (hmem : c ∈ s) (hc : q c = false) : c ∈ s.dropWhile q := by
  induction s with
  | nil => cases hmem
  | cons d s ih =>
      by_cases hd : q d
      · have hne : c ≠ d := by
          rintro rfl
          rw [hc] at hd
          cases hd
        rw [List.dropWhile_cons_of_pos hd]
        exact ih ((List.mem_cons.mp hmem).resolve_left hne)
      · rw [List.dropWhile_cons_of_neg hd]
        exact hmem

end Runs

/-- A mark without a bracket is found in front of a bracket or not at all. -/
theorem after?_append_of_mem {mark s : List Char} (t : List Char) (hmark : '>' ∉ mark) (hmem : '>' ∈ s) :
    after? mark (s ++ t) = (after? mark s).map (· ++ t) ∧ ∀ r, after? mark s = some r → '>' ∈ r := by
  have hmemr : ∀ r, after? mark s = some r → '>' ∈ r := by
    intro r hr
    rw [after?_eq_some_iff.mp hr, List.mem_append] at hmem
    exact hmem.resolve_left hmark
  refine ⟨?_, hmemr⟩
  cases hs : after? mark s with
  | some r =>
      rw [after?_eq_some_iff.mp hs, List.append_assoc]
      exact after?_eq_some_iff.mpr rfl
  | none =>
      rw [Option.map_none]
      by_contra hne
      obtain ⟨r, hr⟩ := Option.ne_none_iff_exists'.mp hne
      obtain ⟨u, hu, -⟩ | ⟨u, hu, -⟩ := List.append_eq_append_iff.mp (after?_eq_some_iff.mp hr)
      · exact hmark (hu ▸ List.mem_append_left u hmem)
      · rw [after?_eq_some_iff.mpr hu] at hs
        cases hs

/-- An end that is recognised by what stands up to its closing bracket, which is its last character. -/
structure EndsAtBracket (close : List Char → Option (List Char)) : Prop where
  append : ∀ s t, '>' ∈ s → close (s ++ t) = (close s).map (· ++ t)
  ends : ∀ s r, close s = some r → ∃ mark, s = mark ++ '>' :: r

namespace EndsAtBracket

variable {close : List Char → Option (List Char)} (hclose : EndsAtBracket close)

include hclose

/-- A cut before the end of a text is the same in any longer one. -/
theorem cutBy_append {s b r : List Char} (t : List Char) (hend : s.getLast? = some '>')
    (h : cutBy close s = some (b, r)) : cutBy close (s ++ t) = some (b, r ++ t) := by
  induction s generalizing b with
  | nil => cases hend
  | cons c s ih =>
      have happend := hclose.append (c :: s) t (List.mem_of_getLast? hend)
      rw [List.cons_append] at happend ⊢
      rw [cutBy] at h ⊢
      rw [happend]
      cases hc : close (c :: s) with
      | some r' =>
          rw [hc] at h
          cases h
          rfl
      | none =>
          rw [hc] at h
          obtain ⟨⟨b', r'⟩, hcut, he⟩ := Option.map_eq_some_iff.mp h
          cases he
          cases s with
          | nil =>
              obtain ⟨_, hnil, -⟩ := Option.map_eq_some_iff.mp hcut
              obtain ⟨mark, hmark⟩ := hclose.ends [] _ hnil
              simp at hmark
          | cons d s =>
              rw [List.getLast?_cons_cons] at hend
              exact congrArg (Option.map _) (ih hend hcut)

/-- A cut right behind a piece of text is made there whatever follows. -/
theorem cutBy_piece {piece s b : List Char} (h : cutBy close (piece ++ s) = some (b, s))
    (t : List Char) : cutBy close (piece ++ t) = some (b, t) := by
  obtain ⟨mark, hmark, hend, hnone⟩ := cutBy_eq_some_iff.mp h
  obtain ⟨m, rfl⟩ := hclose.ends mark s hend
  have hpiece : piece = b ++ (m ++ ['>']) := by
    have hsplit : piece ++ s = b ++ (m ++ ['>']) ++ s := by
      rw [hmark]
      simp
    exact List.append_cancel_right hsplit
  have hlast (a : List Char) : '>' ∈ a ++ (m ++ ['>']) := by simp
  have hcut : cutBy close piece = some (b, []) := by
    refine cutBy_eq_some_iff.mpr ⟨m ++ ['>'], hpiece, ?_, ?_⟩
    · have happend := hclose.append (m ++ ['>']) s (by simp)
      rw [List.append_assoc, List.singleton_append, hend] at happend
      obtain ⟨r, hr, he⟩ := Option.map_eq_some_iff.mp happend.symm
      rw [hr, List.append_left_eq_self.mp he]
    · intro a c b' hb
      have happend := hclose.append (c :: b' ++ (m ++ ['>'])) s (hlast _)
      rw [List.append_assoc, List.append_assoc, List.singleton_append, hnone a c b' hb] at happend
      exact Option.map_eq_none_iff.mp happend.symm
  exact hclose.cutBy_append t (by rw [hpiece]; simp) hcut

end EndsAtBracket

/-- A mark whose only bracket is its last character. -/
theorem endsAtBracket_mark {mark : List Char} (hmark : '>' ∉ mark) :
    EndsAtBracket (after? (mark ++ ['>'])) where
  append s t hmem := by
    have hsplit (s : List Char) : after? (mark ++ ['>']) s = (after? mark s).bind (after? ['>']) := by
      refine Option.ext fun r => ?_
      simp only [Option.bind_eq_some_iff, after?_eq_some_iff, List.append_assoc]
      constructor
      · rintro rfl
        exact ⟨_, rfl, rfl⟩
      · rintro ⟨u, rfl, rfl⟩
        rfl
    obtain ⟨happend, hrest⟩ := after?_append_of_mem t hmark hmem
    rw [hsplit, hsplit, happend]
    cases hs : after? mark s with
    | none => rfl
    | some u =>
        cases u with
        | nil => cases hrest [] hs
        | cons c u =>
            by_cases hc : c = '>'
            · subst hc
              rfl
            · simp [after?, Ne.symm hc]
  ends s r h := ⟨mark, by simpa using after?_eq_some_iff.mp h⟩

end MarkupIds.Text
