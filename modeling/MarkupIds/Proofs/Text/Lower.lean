import Mathlib.Data.List.Basic
import MarkupIds.Text.Lower

/-! Lower case is final: what a text in lower case is made of is left as it is when it is put into lower case
again, whatever stands around it. -/

namespace MarkupIds.Text

namespace CaseShift

def first (s : CaseShift) : Nat := (s.range.first + s.shift).toNat

def last (s : CaseShift) : Nat := (s.range.last + s.shift).toNat

/-- Steps of one or two, and what is moved stays a character. -/
def isSound (s : CaseShift) : Bool :=
  (s.range.step == 1 || s.range.step == 2) && 0 ≤ s.range.first + s.shift &&
    (s.last < 0xD800 || (0xDFFF < s.first && s.last < 0x110000))

/-- All code points that are moved to have one parity: they are every second one, or one alone. -/
def isSparse (s : CaseShift) : Bool := Nat.beq s.range.step 2 || Nat.beq s.range.first s.range.last

/-- Nothing is moved into the range `r`: all lies beside it, or between its code points. -/
def misses (s : CaseShift) (r : CodeRange) : Bool :=
  Nat.blt s.last r.first || Nat.blt r.last s.first ||
    (s.isSparse && Nat.beq r.step 2 && Nat.beq ((s.first + r.first) % 2) 1)

variable {s : CaseShift} {n : Nat}

theorem moved_bounds (hn : s.range.contains n = true) :
    s.first ≤ (n + s.shift).toNat ∧ (n + s.shift).toNat ≤ s.last := by
  simp only [CodeRange.contains, Bool.and_eq_true, decide_eq_true_eq] at hn
  unfold first last
  omega

theorem moved_parity (hs : s.isSound = true) (hsparse : s.isSparse = true) (hn : s.range.contains n = true) :
    (n + s.shift).toNat % 2 = s.first % 2 := by
  simp only [CodeRange.contains, Bool.and_eq_true, decide_eq_true_eq, beq_iff_eq] at hn
  simp only [isSound, Bool.and_eq_true, decide_eq_true_eq] at hs
  simp only [isSparse, Bool.or_eq_true, Nat.beq_eq] at hsparse
  obtain ⟨⟨-, hpos⟩, -⟩ := hs
  unfold first
  obtain hstep | hone := hsparse
  · rw [hstep] at hn
    omega
  · omega

theorem contains_moved_of_misses {r : CodeRange} (hs : s.isSound = true) (hr : s.misses r = true)
    (hn : s.range.contains n = true) : r.contains (n + s.shift).toNat = false := by
  have hbounds := moved_bounds hn
  rw [Bool.eq_false_iff]
  intro hin
  simp only [CodeRange.contains, Bool.and_eq_true, decide_eq_true_eq, beq_iff_eq] at hin
  simp only [misses, Bool.or_eq_true, Bool.and_eq_true, Nat.blt_eq, Nat.beq_eq] at hr
  obtain (hbefore | hbehind) | ⟨⟨hsparse, hstep⟩, hodd⟩ := hr
  · omega
  · omega
  · have hparity := moved_parity hs hsparse hn
    rw [hstep] at hin
    omega

theorem toNat_moved (hs : s.isSound = true) (hn : s.range.contains n = true) :
    (Char.ofNat (n + s.shift).toNat).toNat = (n + s.shift).toNat := by
  have hbounds := moved_bounds hn
  simp only [isSound, Bool.and_eq_true, Bool.or_eq_true, decide_eq_true_eq] at hs
  have hvalid : (n + s.shift).toNat.isValidChar := by
    unfold Nat.isValidChar
    omega
  rw [Char.ofNat, dif_pos hvalid]
  rfl

end CaseShift

/-- Shifts lead out of the ranges of all shifts, and not to the dotted capital I either. -/
theorem shifts_sound : (caseShifts.all fun s => s.isSound && s.misses ⟨0x130, 0x130, 2⟩ &&
    caseShifts.all fun t => s.misses t.range) = true := by decide +kernel

/-- A character that lower case leaves as it is, wherever it stands. -/
def IsLow (c : Char) : Prop := c ≠ 'Σ' ∧ lowerChar c = [c]

/-- A character in the range of no shift stays, and a capital sigma is in one. -/
theorem isLow_of_forall {c : Char} (hdotted : c.toNat ≠ 0x130)
    (h : ∀ s ∈ caseShifts, s.range.contains c.toNat = false) : IsLow c := by
  constructor
  · rintro rfl
    have hsigma : (caseShifts.any fun s => s.range.contains 'Σ'.toNat) = true := by decide
    obtain ⟨s, hs, hin⟩ := List.any_eq_true.mp hsigma
    rw [h s hs] at hin
    cases hin
  · have hnone : caseShifts.find? (fun s => s.range.contains c.toNat) = none :=
      List.find?_eq_none.mpr fun s hs => by simp [h s hs]
    rw [lowerChar, if_neg (by simpa using hdotted), lowerSingle, hnone]

theorem isLow_lowerSingle {c : Char} (hdotted : c.toNat ≠ 0x130) : IsLow (lowerSingle c) := by
  unfold lowerSingle
  split
  next s hs =>
    have hn : s.range.contains c.toNat = true := List.find?_some (p := fun s : CaseShift => s.range.contains c.toNat) hs
    have hcheck := List.all_eq_true.mp shifts_sound s (List.mem_of_find?_eq_some hs)
    simp only [Bool.and_eq_true, List.all_eq_true] at hcheck
    obtain ⟨⟨hsound, hdot⟩, hmiss⟩ := hcheck
    refine isLow_of_forall ?_ fun t ht => ?_
    · have hout := CaseShift.contains_moved_of_misses hsound hdot hn
      rw [CaseShift.toNat_moved hsound hn]
      rintro heq
      rw [heq] at hout
      cases hout
    · rw [CaseShift.toNat_moved hsound hn]
      exact CaseShift.contains_moved_of_misses hsound (hmiss t ht) hn
  next hnone =>
    exact isLow_of_forall hdotted fun s hs => by simpa using List.find?_eq_none.mp hnone s hs

theorem isLow_of_mem_lowerChar {c d : Char} (h : d ∈ lowerChar c) : IsLow d := by
  unfold lowerChar at h
  split at h
  · have hpair : IsLow 'i' ∧ IsLow (Char.ofNat 0x307) := by
      unfold IsLow
      decide
    obtain rfl | h := List.mem_cons.mp h
    · exact hpair.1
    · obtain rfl := List.mem_singleton.mp h
      exact hpair.2
  next hdotted =>
    obtain rfl := List.mem_singleton.mp h
    exact isLow_lowerSingle (by simpa using hdotted)

theorem isLow_of_mem_lowerFrom {before s : List Char} {d : Char} (h : d ∈ lowerFrom before s) : IsLow d := by
  have hsigmas : IsLow 'ς' ∧ IsLow 'σ' := by
    unfold IsLow
    decide
  induction s generalizing before with
  | nil => cases h
  | cons c s ih =>
      rw [lowerFrom] at h
      obtain h | h := List.mem_append.mp h
      · split at h
        · obtain rfl := List.mem_singleton.mp h
          split
          · exact hsigmas.1
          · exact hsigmas.2
        · exact isLow_of_mem_lowerChar h
      · exact ih h

/-- Without a capital sigma each character goes for itself. -/
theorem lowerFrom_eq_flatMap {before s : List Char} (h : 'Σ' ∉ s) : lowerFrom before s = s.flatMap lowerChar := by
  induction s generalizing before with
  | nil => rfl
  | cons c s ih =>
      obtain ⟨hc, hs⟩ := not_or.mp (mt List.mem_cons.mpr h)
      rw [lowerFrom, if_neg (by simpa using Ne.symm hc), ih hs, List.flatMap_cons]

theorem lowerChar_ne_nil (c : Char) : lowerChar c ≠ [] := by
  unfold lowerChar
  split <;> exact List.cons_ne_nil _ _

/-- How many characters a text has in lower case does not depend on what stands around it. -/
theorem length_lowerFrom_append (before before' a b : List Char) : (lowerFrom before (a ++ b)).length =
    (lowerFrom before' a).length + (lowerFrom (a.reverse ++ before) b).length := by
  induction a generalizing before before' with
  | nil => simp [lowerFrom]
  | cons c a ih =>
      have hfirst (rest rest' : List Char) :
          (if c == 'Σ' then [if endsWord before rest then 'ς' else 'σ'] else lowerChar c).length =
            (if c == 'Σ' then [if endsWord before' rest' then 'ς' else 'σ'] else lowerChar c).length := by
        split <;> rfl
      rw [List.cons_append, lowerFrom, lowerFrom, List.length_append, List.length_append, ih (c :: before) (c :: before'),
        hfirst (a ++ b) a, List.reverse_cons, List.append_assoc, List.singleton_append, Nat.add_assoc]

theorem lower_append_ne (a : List Char) {b : List Char} (h : b ≠ []) : lower (a ++ b) ≠ lower a := by
  obtain ⟨c, b, rfl⟩ := List.exists_cons_of_ne_nil h
  intro heq
  have hlength := congrArg List.length heq
  have hpos : 0 < (lowerFrom (a.reverse ++ []) (c :: b)).length := by
    rw [lowerFrom, List.length_append]
    refine Nat.add_pos_left (List.length_pos_iff.mpr ?_) _
    split
    next => exact List.cons_ne_nil _ _
    next => exact lowerChar_ne_nil c
  rw [lower, lower, length_lowerFrom_append [] [] a (c :: b)] at hlength
  omega

theorem flatMap_lowerChar {s : List Char} (h : ∀ c ∈ s, IsLow c) : s.flatMap lowerChar = s := by
  rw [List.flatMap_congr fun c hc => (h c hc).2, List.flatMap_singleton']

/-- A text is in lower case exactly if each of its characters stays. -/
theorem lower_eq_self_iff {s : List Char} : lower s = s ↔ ∀ c ∈ s, IsLow c := by
  constructor
  · intro h c hc
    rw [← h] at hc
    exact isLow_of_mem_lowerFrom hc
  · intro h
    rw [lower, lowerFrom_eq_flatMap fun hmem => (h _ hmem).1 rfl, flatMap_lowerChar h]

end MarkupIds.Text
