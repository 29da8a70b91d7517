import Mathlib.Data.List.TakeWhile
import MarkupIds.Proofs.Text.Cut
import MarkupIds.Html.Token

/-! The attributes of a start tag and the gaps between them. -/

namespace MarkupIds.Html

open MarkupIds.Text (isBlank isLetter cutAt)

theorem skipGap_suffix (s : List Char) : skipGap s <:+ s := by
  induction s with
  | nil => exact List.suffix_rfl
  | cons c s ih =>
      rw [skipGap]
      split
      · exact List.suffix_rfl
      split
      · exact ih.trans (List.suffix_cons c s)
      · exact List.suffix_rfl

theorem bareValue_suffix (s : List Char) : (bareValue s).2 <:+ s := by
  rw [bareValue, List.span_eq_takeWhile_dropWhile]
  exact List.dropWhile_suffix _

theorem cutAt_suffix {mark s before rest : List Char} (h : cutAt mark s = some (before, rest)) :
    rest <:+ s := by
  rw [Text.cutAt_eq_some h, ← List.append_assoc]
  exact List.suffix_append _ _

theorem unclosedValue_suffix {signs : Nat} {blanks s value rest : List Char}
    (h : unclosedValue signs blanks s = some (value, rest)) : rest <:+ blanks ++ s := by
  unfold unclosedValue at h
  split at h
  next last init hblanks =>
    cases h
    rw [List.reverse_eq_cons_iff.mp hblanks, List.append_assoc]
    exact List.suffix_append _ _
  next =>
    split at h
    · cases h
      exact (bareValue_suffix s).trans (List.suffix_append _ _)
    · cases h

theorem valueAfter_suffix {signs : Nat} {blanks s value rest : List Char}
    (h : valueAfter signs blanks s = some (value, rest)) : rest <:+ blanks ++ s := by
  have hquoted {q : Char} {r : List Char}
      (hq : (cutAt [q] r).orElse (fun _ => unclosedValue signs blanks (q :: r)) = some (value, rest)) :
      rest <:+ blanks ++ q :: r := by
    cases hcut : cutAt [q] r with
    | some found =>
        rw [hcut] at hq
        cases hq
        exact (cutAt_suffix hcut).trans ((List.suffix_cons q r).trans (List.suffix_append _ _))
    | none =>
        rw [hcut] at hq
        exact unclosedValue_suffix hq
  unfold valueAfter at h
  split at h
  · exact hquoted h
  · exact hquoted h
  · obtain rfl : (bareValue s).2 = rest := congrArg Prod.snd (Option.some.inj h)
    exact (bareValue_suffix s).trans (List.suffix_append _ _)

theorem attributeValue?_suffix {s value rest : List Char} (h : attributeValue? s = some (value, rest)) :
    rest <:+ s := by
  unfold attributeValue? at h
  split at h
  next r hr =>
    simp only [List.span_eq_takeWhile_dropWhile] at h
    have hvalue := valueAfter_suffix h
    rw [List.takeWhile_append_dropWhile] at hvalue
    have hsigns := List.dropWhile_suffix (l := '=' :: r) (· == '=')
    rw [← hr] at hsigns
    exact hvalue.trans (hr ▸ hsigns.trans (List.dropWhile_suffix _))
  next => cases h

theorem attributeAt_suffix (c : Char) (s : List Char) : (attributeAt c s).2 <:+ s := by
  unfold attributeAt
  rw [List.span_eq_takeWhile_dropWhile]
  dsimp only
  have hname := List.dropWhile_suffix (l := s) isAttributeNameChar
  cases hvalue : attributeValue? (s.dropWhile isAttributeNameChar) with
  | none => exact hname
  | some found => exact (attributeValue?_suffix hvalue).trans hname

theorem attributesFrom_suffix (fuel : Nat) (before : Char) (s : List Char) :
    (attributesFrom fuel before s).2 <:+ s := by
  induction fuel generalizing before s with
  | zero => exact List.suffix_refl s
  | succ fuel ih =>
      cases s with
      | nil => exact List.suffix_refl []
      | cons c r =>
          rw [attributesFrom]
          split
          · exact (ih _ _).trans ((skipGap_suffix _).trans
              ((attributeAt_suffix c r).trans (List.suffix_cons c r)))
          · exact List.suffix_rfl

section Gap

/-- A gap goes on with this character, which does not stand before the closing bracket. -/
def InGap (c : Char) (s : List Char) : Prop :=
  (isBlank c = true ∨ c = '/') ∧ (c = '/' → s.head? ≠ some '>')

theorem skipGap_cons {c : Char} {s : List Char} (h : InGap c s) : skipGap (c :: s) = skipGap s := by
  rw [skipGap, if_neg, if_pos]
  · simpa using h.1
  · intro hend
    obtain ⟨hslash, hbracket⟩ := Bool.and_eq_true_iff.mp hend
    exact h.2 (beq_iff_eq.mp hslash) (beq_iff_eq.mp hbracket)

theorem skipGap_cons_of_not {c : Char} {s : List Char} (h : ¬ InGap c s) :
    skipGap (c :: s) = c :: s := by
  rw [skipGap]
  split
  · rfl
  next hend =>
    rw [if_neg]
    intro hc
    refine h ⟨by simpa using hc, ?_⟩
    rintro rfl hbracket
    rw [hbracket] at hend
    exact hend rfl

/-- White space and slashes are all that a gap takes off a text. -/
theorem skipGap_split (s : List Char) :
    ∃ gap, s = gap ++ skipGap s ∧ ∀ c ∈ gap, isBlank c = true ∨ c = '/' := by
  induction s with
  | nil => exact ⟨[], rfl, by simp⟩
  | cons c s ih =>
      by_cases hc : InGap c s
      · obtain ⟨gap, hs, hgap⟩ := ih
        refine ⟨c :: gap, by rw [skipGap_cons hc, List.cons_append, ← hs], ?_⟩
        intro d hd
        rcases List.mem_cons.mp hd with rfl | hd
        · exact hc.1
        · exact hgap d hd
      · exact ⟨[], by rw [skipGap_cons_of_not hc]; rfl, by simp⟩

theorem lastBefore_append (p s : List Char) (c : Char) :
    lastBefore (p ++ s) s c = p.getLast?.getD c := by
  have hlength : (p ++ s).length - s.length = p.length := by
    rw [List.length_append]
    omega
  rw [lastBefore, hlength, List.take_left]

/-- Behind white space the name of an attribute may start. -/
theorem mayPrecedeName_lastBefore (p : List Char) {z : List Char} (c : Char)
    (hz : z.head?.any isBlank = true) : mayPrecedeName (lastBefore (p ++ z) (skipGap z) c) = true := by
  obtain ⟨gap, hsplit, hgap⟩ := skipGap_split z
  have hne : gap ≠ [] := by
    rintro rfl
    rw [List.nil_append] at hsplit
    cases z with
    | nil => exact Bool.false_ne_true hz
    | cons d z =>
        have hd : isBlank d = true := hz
        have hslash : d ≠ '/' := by
          rintro rfl
          exact absurd hd (by decide)
        rw [skipGap_cons ⟨.inl hd, fun hd' => absurd hd' hslash⟩] at hsplit
        have hle := (skipGap_suffix z).length_le
        rw [← hsplit, List.length_cons] at hle
        omega
  have hlast : lastBefore (p ++ z) (skipGap z) c = gap.getLast hne := by
    generalize skipGap z = rest at hsplit
    rw [hsplit, ← List.append_assoc, lastBefore_append, List.getLast?_append, 
      List.getLast?_eq_some_getLast hne]
    rfl
  rw [hlast]
  obtain hblank | hslash := hgap _ (List.getLast_mem hne)
  · rw [mayPrecedeName, hblank]
    rfl
  · rw [hslash]
    rfl

end Gap

theorem skipGap_blanks {blanks : List Char} (h : blanks.all isBlank = true) (s : List Char) :
    skipGap (blanks ++ s) = skipGap s := by
  induction blanks with
  | nil => rfl
  | cons c blanks ih =>
      obtain ⟨hc, hblanks⟩ := Bool.and_eq_true_iff.mp (List.all_cons ▸ h)
      have hslash : c ≠ '/' := by
        rintro rfl
        exact absurd hc (by decide)
      rw [List.cons_append, skipGap_cons ⟨.inl hc, fun h => absurd h hslash⟩]
      exact ih hblanks

/-- What follows some attributes holds the last ones and ends the list. -/
structure Ends (z : List Char) (last : List (String × List Char)) (rest : List Char) : Prop where
  head : ∃ c u, z = c :: u ∧ (isBlank c = true ∨ c = '>' ∨ c = '/')
  next : (z.dropWhile isBlank).head? ≠ some '='
  read : ∀ fuel before, last.length ≤ fuel → (z.head?.any isBlank = true → mayPrecedeName before = true) →
    attributesFrom fuel before (skipGap z) = (last, rest)

end MarkupIds.Html
