import Mathlib.Data.List.TakeDrop
import MarkupIds.Html.StartTag

/-! A start tag is read off the text as it stands there: its parts, one after another, are the start
of the text, and its tail is white space with the closing bracket. -/

namespace MarkupIds.Html.StartTag

open MarkupIds.Text (isBlank)

/-- White space and the end of a tag. -/
def IsTail (tail : List Char) : Prop :=
  ∃ blanks, blanks.all isBlank ∧ (tail = blanks ++ ['>'] ∨ tail = blanks ++ ['/', '>'])

theorem tail?_eq_some {s tail : List Char} (h : tail? s = some tail) :
    IsTail tail ∧ ∃ rest, s = tail ++ rest := by
  unfold tail? at h
  rw [List.span_eq_takeWhile_dropWhile] at h
  dsimp only at h
  have hs := List.takeWhile_append_dropWhile (p := isBlank) (l := s)
  have hblank : (s.takeWhile isBlank).all isBlank := List.all_takeWhile
  split at h
  next rest hrest =>
    cases h
    refine ⟨⟨_, hblank, .inl rfl⟩, rest, ?_⟩
    rw [List.append_assoc, List.singleton_append, ← hrest, hs]
  next rest hrest =>
    cases h
    refine ⟨⟨_, hblank, .inr rfl⟩, rest, ?_⟩
    rw [List.append_assoc, List.cons_append, List.singleton_append, ← hrest, hs]
  next => cases h

theorem endOutside?_eq_some {quote : Option Char} {s tail : List Char}
    (h : endOutside? quote s = some tail) : quote = none ∧ tail? s = some tail := by
  cases quote with
  | none => exact ⟨rfl, h⟩
  | some q => cases h

theorem splitTail_eq_some {quote : Option Char} {s attributes tail : List Char}
    (h : splitTail quote s = some (attributes, tail)) :
    IsTail tail ∧ ∃ rest, s = attributes ++ tail ++ rest := by
  induction s generalizing quote attributes with
  | nil => cases h
  | cons c s ih =>
      rw [splitTail] at h
      split at h
      next tail' htail' =>
        cases h
        exact tail?_eq_some (endOutside?_eq_some htail').2
      next =>
        obtain ⟨⟨a, t⟩, hr, he⟩ := Option.map_eq_some_iff.mp h
        cases he
        obtain ⟨htail, rest, hrest⟩ := ih hr
        exact ⟨htail, rest, by rw [hrest]; rfl⟩

theorem read?_eq_some {s : List Char} {t : StartTag} (h : read? s = some t) :
    IsTail t.tail ∧ ∃ rest, s = t.text ++ rest := by
  unfold read? at h
  split at h
  next c r =>
    split at h
    · rw [List.span_eq_takeWhile_dropWhile] at h
      dsimp only at h
      obtain ⟨⟨attributes, tail⟩, hsplit, ht⟩ := Option.map_eq_some_iff.mp h
      cases ht
      obtain ⟨htail, rest, hrest⟩ := splitTail_eq_some hsplit
      refine ⟨htail, rest, ?_⟩
      calc '<' :: c :: r
          = '<' :: c :: (r.takeWhile isNameChar ++ r.dropWhile isNameChar) := by
            rw [List.takeWhile_append_dropWhile]
        _ = _ := by
            rw [hrest]
            simp [text]
    · cases h
  next => cases h

/-- The tag with an id holds the attribute as it is written. -/
theorem written_infix_withId (t : StartTag) (overwrite : Bool) (attr id : List Char) :
    Markup.written attr (Markup.escape id) <:+: (t.withId overwrite attr id).text := by
  refine ⟨'<' :: (t.name ++ if overwrite then without attr t.attributes else t.attributes), t.tail, ?_⟩
  simp only [withId, text, List.cons_append, List.append_assoc]

theorem withoutFrom_nil (target : List Char) (fuel : Nat) : withoutFrom target fuel [] = [] := by
  cases fuel <;> rfl

theorem withoutFrom_cons (target : List Char) (fuel : Nat) (c : Char) (s : List Char) :
    withoutFrom target (fuel + 1) (c :: s) =
      match attribute? (c :: s) with
      | none => c :: withoutFrom target fuel s
      | some (name, rest) =>
        (if Text.lower name == target then [] else (c :: s).take ((c :: s).length - rest.length)) ++
          withoutFrom target fuel rest := by
  rfl

end MarkupIds.Html.StartTag
