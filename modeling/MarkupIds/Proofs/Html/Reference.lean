import MarkupIds.Html.Reference
import MarkupIds.Markup.Escape

/-! References in attribute values. Escaping a text and reading the value gives the text back. -/

namespace MarkupIds.Html

/-- What stands for a character between quotes: the character itself, or a reference to it. -/
def StandsFor (piece : List Char) (c : Char) : Prop :=
  (piece = [c] ∧ c ≠ '&') ∨
    ∃ name, piece = '&' :: name ∧ ∀ rest, valueReference? (name ++ rest) = some ([c], rest)

/-- A text whose characters are written by what stands for them is read back. -/
theorem expand_flatMap {write : Char → List Char} (h : ∀ c, StandsFor (write c) c) (s : List Char) :
    expand (s.flatMap write) = s := by
  suffices ∀ fuel, (s.flatMap write).length ≤ fuel → expandFrom fuel (s.flatMap write) = s from
    this _ (Nat.le_refl _)
  induction s with
  | nil =>
      intro fuel _
      cases fuel <;> rfl
  | cons c s ih =>
      intro fuel hfuel
      rw [List.flatMap_cons, List.length_append] at hfuel
      rw [List.flatMap_cons]
      obtain ⟨hpiece, hne⟩ | ⟨name, hpiece, hread⟩ := h c
      · rw [hpiece, List.length_singleton] at hfuel
        obtain ⟨fuel, rfl⟩ : ∃ n, fuel = n + 1 := ⟨fuel - 1, by omega⟩
        rw [hpiece, List.singleton_append, expandFrom, ih fuel (by omega)]
        exact hne
      · rw [hpiece, List.length_cons] at hfuel
        obtain ⟨fuel, rfl⟩ : ∃ n, fuel = n + 1 := ⟨fuel - 1, by omega⟩
        rw [hpiece, List.cons_append, expandFrom, hread]
        exact congrArg (c :: ·) (ih fuel (by omega))

/-- A named reference that ends in a semicolon. -/
theorem valueReference?_named {name : List Char} {c : Char} (hchars : name.all isReferenceChar)
    (hlength : name.length ≤ 32) (hname : name ≠ []) (hknown : valueOfName (name ++ [';']) = [c])
    (rest : List Char) : valueReference? (name ++ ';' :: rest) = some ([c], rest) := by
  have htaken : ((name ++ ';' :: rest).takeWhile isReferenceChar).take 32 = name := by
    rw [List.takeWhile_append_of_pos (List.all_eq_true.mp hchars)]
    have hstop : (';' :: rest).takeWhile isReferenceChar = [] := rfl
    rw [hstop, List.append_nil, List.take_of_length_le hlength]
  have hdrop : (name ++ ';' :: rest).drop name.length = ';' :: rest := List.drop_left
  have hempty : name.isEmpty = false := by simpa using hname
  obtain ⟨first, name', rfl⟩ := List.exists_cons_of_ne_nil hname
  have hfirst : first ≠ '#' := by
    rintro rfl
    simp [isReferenceChar] at hchars
  unfold valueReference?
  split
  next h => exact absurd (List.cons.inj h).1 hfirst
  next h => exact absurd (List.cons.inj h).1 hfirst
  next h => exact absurd (List.cons.inj h).1 hfirst
  next =>
    simp only [htaken, hdrop, hempty, hknown]
    rfl

theorem standsFor_named (name : List Char) {c : Char} (hchars : name.all isReferenceChar)
    (hlength : name.length ≤ 32) (hname : name ≠ []) (hknown : valueOfName (name ++ [';']) = [c]) :
    StandsFor ('&' :: (name ++ [';'])) c :=
  .inr ⟨name ++ [';'], rfl, fun rest => by
    rw [List.append_assoc]
    exact valueReference?_named hchars hlength hname hknown rest⟩

/-- The names for the characters that are escaped are known. -/
theorem valueOfName_escaped :
    valueOfName (['a', 'm', 'p'] ++ [';']) = ['&'] ∧ valueOfName (['l', 't'] ++ [';']) = ['<'] ∧
      valueOfName (['g', 't'] ++ [';']) = ['>'] ∧ valueOfName (['q', 'u', 'o', 't'] ++ [';']) = ['"'] := by
  decide +kernel

theorem standsFor_escapeChar (c : Char) : StandsFor (Markup.escapeChar c) c := by
  obtain ⟨hamp, hless, hgreater, hquote⟩ := valueOfName_escaped
  unfold Markup.escapeChar
  split
  · exact standsFor_named ['a', 'm', 'p'] rfl (by decide) (by decide) hamp
  · exact standsFor_named ['l', 't'] rfl (by decide) (by decide) hless
  · exact standsFor_named ['g', 't'] rfl (by decide) (by decide) hgreater
  · exact standsFor_named ['q', 'u', 'o', 't'] rfl (by decide) (by decide) hquote
  next hother _ _ _ => exact .inl ⟨rfl, hother⟩

/-- An escaped text is read as the text that it was made from. -/
theorem expand_escape (s : List Char) : expand (Markup.escape s) = s :=
  expand_flatMap standsFor_escapeChar s

theorem overlong?_cons {c : Char} {s : List Char} (h : c = '&' → s.head? ≠ some '#') :
    overlong? (c :: s) = overlong? s := by
  rw [overlong?]
  rintro s' rfl rfl
  exact h rfl rfl

/-- An escaped text has no numbers in it. -/
theorem overlong?_escape (s : List Char) : overlong? (Markup.escape s) = none := by
  induction s with
  | nil => rfl
  | cons c s ih =>
      rw [Markup.escape, List.flatMap_cons]
      change overlong? (Markup.escapeChar c ++ Markup.escape s) = none
      unfold Markup.escapeChar
      split
      next => exact ih
      next => exact ih
      next => exact ih
      next => exact ih
      next hother _ _ _ => exact (overlong?_cons fun hc => absurd hc hother).trans ih

theorem escape_injective : Function.Injective Markup.escape :=
  Function.LeftInverse.injective expand_escape

end MarkupIds.Html
