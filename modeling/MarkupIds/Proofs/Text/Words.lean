import Mathlib.Data.List.DropRight
import MarkupIds.Text.Lower
import MarkupIds.Text.Blank

/-! Words: white space around a text has no part in them, nor has the width of the white space between them. And
what lower case looks at around a sigma. -/

namespace MarkupIds.Text

theorem trimEnd_append (s : List Char) : ∃ behind, trimStart s = trim s ++ behind ∧ ∀ c ∈ behind, isBlank c = true := by
  refine ⟨((trimStart s).reverse.takeWhile isBlank).reverse, ?_, fun c hc => List.mem_takeWhile_imp (List.mem_reverse.mp hc)⟩
  rw [trim, trimEnd, ← List.reverse_append, List.takeWhile_append_dropWhile, List.reverse_reverse]

/-- What trimming takes away is white space, and it leaves none at the ends. -/
theorem exists_trim (s : List Char) : ∃ before behind, s = before ++ (trim s ++ behind) ∧
    (∀ c ∈ before, isBlank c = true) ∧ (∀ c ∈ behind, isBlank c = true) := by
  obtain ⟨behind, hsplit, hbehind⟩ := trimEnd_append s
  refine ⟨s.takeWhile isBlank, behind, ?_, fun c => List.mem_takeWhile_imp, hbehind⟩
  rw [← hsplit]
  exact (List.takeWhile_append_dropWhile (p := isBlank) (l := s)).symm

/-- A text that is trimmed stays as it is. -/
theorem trim_trim (s : List Char) : trim (trim s) = trim s := by
  have hstart : trimStart (trim s) = trim s := by
    obtain ⟨behind, hsplit, -⟩ := trimEnd_append s
    cases htrim : trim s with
    | nil => rfl
    | cons c r =>
        -- The first character is the one that the white space before the text ends at.
        have hnot := List.head?_dropWhile_not isBlank s
        rw [show s.dropWhile isBlank = c :: r ++ behind from htrim ▸ hsplit] at hnot
        exact List.dropWhile_cons_of_neg (by simpa using hnot)
  have hend : trimEnd (trim s) = trim s := by
    rw [trim, trimEnd, trimEnd, List.reverse_reverse, List.dropWhile_idempotent]
  rw [trim, hstart, hend]

theorem splitWhere_cons (p : Char → Bool) (c : Char) (s : List Char) :
    splitWhere p (c :: s) = if p c then [] :: splitWhere p s
      else (c :: (splitWhere p s).headD []) :: (splitWhere p s).tail := by
  rw [splitWhere]
  split
  · rfl
  · cases hsplit : splitWhere p s with
    | nil => exact absurd hsplit (splitWhere_ne_nil p s)
    | cons piece pieces => rfl

theorem splitWhere_append_cons {p : Char → Bool} {c : Char} (hc : p c = true) (s t : List Char) :
    splitWhere p (s ++ c :: t) = splitWhere p s ++ splitWhere p t := by
  induction s with
  | nil => rw [List.nil_append, splitWhere_cons, if_pos hc]; rfl
  | cons d s ih =>
      rw [List.cons_append, splitWhere_cons, splitWhere_cons, ih]
      split
      · rfl
      · cases hsplit : splitWhere p s with
        | nil => exact absurd hsplit (splitWhere_ne_nil p s)
        | cons piece pieces => rfl

theorem not_of_mem_splitWhere {p : Char → Bool} {s piece : List Char} (h : piece ∈ splitWhere p s) :
    ∀ c ∈ piece, p c = false := by
  induction s generalizing piece with
  | nil =>
      obtain rfl := List.mem_singleton.mp h
      simp
  | cons c s ih =>
      have hrest {piece : List Char} (h : piece ∈ (splitWhere p s).tail) : ∀ c ∈ piece, p c = false :=
        ih (List.mem_of_mem_tail h)
      rw [splitWhere_cons] at h
      split at h
      next =>
        obtain rfl | h := List.mem_cons.mp h
        · simp
        · exact ih h
      next hc =>
        obtain rfl | h := List.mem_cons.mp h
        · refine List.forall_mem_cons.mpr ⟨Bool.eq_false_iff.mpr hc, ?_⟩
          cases hsplit : splitWhere p s with
          | nil => simp
          | cons first rest => exact ih (by rw [hsplit]; exact List.mem_cons_self)
        · exact hrest h

theorem mem_of_mem_splitWhere {p : Char → Bool} {s piece : List Char} {c : Char} (h : piece ∈ splitWhere p s)
    (hc : c ∈ piece) : c ∈ s := by
  induction s generalizing piece with
  | nil =>
      obtain rfl := List.mem_singleton.mp h
      exact hc
  | cons d s ih =>
      rw [splitWhere_cons] at h
      split at h
      next =>
        obtain rfl | h := List.mem_cons.mp h
        · cases hc
        · exact List.mem_cons_of_mem _ (ih h hc)
      next =>
        obtain rfl | h := List.mem_cons.mp h
        · obtain rfl | hc := List.mem_cons.mp hc
          · exact List.mem_cons_self
          cases hsplit : splitWhere p s with
          | nil =>
              rw [hsplit] at hc
              cases hc
          | cons first rest =>
              rw [hsplit] at hc
              exact List.mem_cons_of_mem _ (ih (by rw [hsplit]; exact List.mem_cons_self) hc)
        · exact List.mem_cons_of_mem _ (ih (List.mem_of_mem_tail h) hc)

theorem splitWhere_of_forall {p : Char → Bool} {s : List Char} (h : ∀ c ∈ s, p c = false) : splitWhere p s = [s] := by
  induction s with
  | nil => rfl
  | cons c s ih =>
      obtain ⟨hc, hs⟩ := List.forall_mem_cons.mp h
      rw [splitWhere_cons, hc, ih hs]
      rfl

/-- Two texts begin with the same word, if any, and have the same words behind it. -/
def SameWords (s t : List Char) : Prop :=
  (splitWhere isBlank s).headD [] = (splitWhere isBlank t).headD [] ∧
    (splitWhere isBlank s).tail.filter (fun w => !w.isEmpty) = (splitWhere isBlank t).tail.filter fun w => !w.isEmpty

theorem words_eq (s : List Char) : words s = ([(splitWhere isBlank s).headD []].filter fun w => !w.isEmpty) ++
    (splitWhere isBlank s).tail.filter fun w => !w.isEmpty := by
  rw [words, ← List.filter_append]
  cases hsplit : splitWhere isBlank s with
  | nil => exact absurd hsplit (splitWhere_ne_nil _ s)
  | cons piece pieces => rfl

theorem ne_nil_of_mem_words {s w : List Char} (h : w ∈ words s) : w ≠ [] := by
  have hnonempty := (List.mem_filter.mp h).2
  simpa using hnonempty

theorem words_eq_nil_iff {s : List Char} : words s = [] ↔ ∀ c ∈ s, isBlank c = true := by
  induction s with
  | nil => simp [words, splitWhere]
  | cons c s ih =>
      rw [List.forall_mem_cons, ← ih, words, words, splitWhere_cons]
      cases hc : isBlank c <;> simp

namespace SameWords

variable {s t : List Char}

theorem refl (s : List Char) : SameWords s s := ⟨rfl, rfl⟩

theorem words (h : SameWords s t) : Text.words s = Text.words t := by
  rw [words_eq, words_eq, h.1, h.2]

theorem cons (c : Char) (h : SameWords s t) : SameWords (c :: s) (c :: t) := by
  unfold SameWords
  rw [splitWhere_cons, splitWhere_cons]
  by_cases hc : isBlank c = true
  · have hwords := h.words
    rw [Text.words, Text.words] at hwords
    simpa [hc] using hwords
  · simpa [hc, SameWords] using h

theorem append (u : List Char) (h : SameWords s t) : SameWords (u ++ s) (u ++ t) := by
  induction u with
  | nil => exact h
  | cons c u ih => exact ih.cons c

/-- White space may be wider. -/
theorem widen {c d : Char} (hc : isBlank c = true) (hd : isBlank d = true) (h : SameWords s t) :
    SameWords (c :: d :: s) (d :: t) := by
  have hwords := h.words
  rw [Text.words, Text.words] at hwords
  simpa [SameWords, splitWhere_cons, hc, hd] using hwords

end SameWords

theorem words_append_of_blank {before : List Char} (h : ∀ c ∈ before, isBlank c = true) (s : List Char) :
    words (before ++ s) = words s := by
  induction before with
  | nil => rfl
  | cons c before ih =>
      obtain ⟨hc, hbefore⟩ := List.forall_mem_cons.mp h
      rw [← ih hbefore, words, words, List.cons_append, splitWhere_cons, if_pos hc]
      rfl

theorem sameWords_of_blank {behind : List Char} (h : ∀ c ∈ behind, isBlank c = true) : SameWords behind [] := by
  induction behind with
  | nil => exact .refl []
  | cons c behind ih =>
      obtain ⟨hc, hbehind⟩ := List.forall_mem_cons.mp h
      have hwords := (ih hbehind).words
      rw [words] at hwords
      unfold SameWords
      rw [splitWhere_cons, if_pos hc]
      exact ⟨rfl, hwords⟩

/-- White space between two texts parts their words, however wide it is. -/
theorem sameWords_blank_append {gap : List Char} (hne : gap ≠ []) (h : ∀ c ∈ gap, isBlank c = true) (s : List Char) :
    SameWords (gap ++ s) (' ' :: s) := by
  cases gap with
  | nil => exact absurd rfl hne
  | cons c gap =>
      obtain ⟨hc, hgap⟩ := List.forall_mem_cons.mp h
      have hwords := words_append_of_blank hgap s
      rw [words, words] at hwords
      simpa [SameWords, splitWhere_cons, hc, show isBlank ' ' = true from rfl] using hwords

/-- White space at either end is no part of any word. -/
theorem words_of_blank_around {before behind : List Char} (hbefore : ∀ c ∈ before, isBlank c = true)
    (hbehind : ∀ c ∈ behind, isBlank c = true) (s : List Char) : words (before ++ (s ++ behind)) = words s := by
  rw [words_append_of_blank hbefore]
  have hsame := (sameWords_of_blank hbehind).append s
  rw [List.append_nil] at hsame
  exact hsame.words

section Sigma

/-- A letter stands next to a capital sigma, where `s` is what follows the sigma or comes before it. -/
def nextToLetter (s : List Char) : Bool := ((s.dropWhile isCaseIgnorable).head?).any isCased

theorem endsWord_eq (before after : List Char) :
    endsWord before after = (nextToLetter before && !nextToLetter after) := by
  unfold endsWord nextToLetter
  dsimp only
  cases before.dropWhile isCaseIgnorable <;> cases after.dropWhile isCaseIgnorable <;> rfl

theorem nextToLetter_cons (c : Char) (s : List Char) :
    nextToLetter (c :: s) = if isCaseIgnorable c then nextToLetter s else isCased c := by
  unfold nextToLetter
  rw [List.dropWhile_cons]
  split <;> rfl

end Sigma

end MarkupIds.Text
