import MarkupIds.Proofs.Text.Cut
import MarkupIds.Xml.Token

/-! The tokens of an XML text lose nothing: their texts, one after another, are the start of the
text, and what follows them is the part in which no token was found. -/

namespace MarkupIds.Xml

open MarkupIds.Text (isBlank after? cutAt cutAt_eq_some after?_eq_some_iff)

theorem WrittenAttribute.read?_eq_some {s rest : List Char} {a : WrittenAttribute}
    (h : WrittenAttribute.read? s = some (a, rest)) : s = a.text ++ rest := by
  unfold WrittenAttribute.read? at h
  simp only [List.span_eq_takeWhile_dropWhile] at h
  split at h
  · cases h
  split at h
  next r hlink =>
    split at h
    next quote r' hquote =>
      split at h
      · obtain ⟨⟨value, rest'⟩, hcut, he⟩ := Option.map_eq_some_iff.mp h
        cases he
        have hvalue := cutAt_eq_some hcut
        have hbehind := List.takeWhile_append_dropWhile (p := isBlank) (l := r)
        have hbefore := List.takeWhile_append_dropWhile (p := isBlank)
          (l := (s.dropWhile isBlank).dropWhile isNameChar)
        have hname := List.takeWhile_append_dropWhile (p := isNameChar) (l := s.dropWhile isBlank)
        have hlead := List.takeWhile_append_dropWhile (p := isBlank) (l := s)
        rw [hquote, hvalue] at hbehind
        rw [hlink, ← hbehind] at hbefore
        rw [← hbefore] at hname
        rw [← hname] at hlead
        conv_lhs => rw [← hlead]
        simp [WrittenAttribute.text]
      · cases h
    next => cases h
  next => cases h

namespace StartTag

theorem readAttributes_eq (fuel : Nat) (s : List Char) :
    s = (readAttributes fuel s).1.flatMap WrittenAttribute.text ++ (readAttributes fuel s).2 := by
  induction fuel generalizing s with
  | zero => rfl
  | succ fuel ih =>
      rw [readAttributes]
      split
      next => rfl
      next a rest h =>
        conv_lhs => rw [WrittenAttribute.read?_eq_some h, ih rest]
        simp

theorem readTail?_eq_some {s tail rest : List Char} (h : readTail? s = some (tail, rest)) :
    s = tail ++ rest ∧ tail ≠ [] := by
  unfold readTail? at h
  rw [List.span_eq_takeWhile_dropWhile] at h
  dsimp only at h
  have hs := List.takeWhile_append_dropWhile (p := isBlank) (l := s)
  split at h
  next r hr =>
    cases h
    rw [hr] at hs
    exact ⟨by rw [List.append_assoc]; exact hs.symm, by simp⟩
  next r hr =>
    cases h
    rw [hr] at hs
    exact ⟨by rw [List.append_assoc]; exact hs.symm, by simp⟩
  next => cases h

theorem read?_eq_some {s rest : List Char} {t : StartTag} (h : read? s = some (t, rest)) :
    s = t.text ++ rest ∧ t.tail ≠ [] := by
  unfold read? at h
  split at h
  next r =>
    simp only [List.span_eq_takeWhile_dropWhile] at h
    split at h
    · cases h
    · obtain ⟨⟨tail, rest'⟩, htail, he⟩ := Option.map_eq_some_iff.mp h
      cases he
      obtain ⟨hrest, hend⟩ := readTail?_eq_some htail
      have hname := List.takeWhile_append_dropWhile (p := isNameChar) (l := r)
      rw [readAttributes_eq (r.dropWhile isNameChar).length (r.dropWhile isNameChar), hrest] at hname
      refine ⟨?_, hend⟩
      conv_lhs => rw [← hname]
      simp [text]
  next => cases h

/-- The tag with an id holds the attribute as it is written. -/
theorem written_infix_withId (t : StartTag) (overwrite : Bool) (attr id : List Char) :
    Markup.written attr (Markup.escape id) <:+: (t.withId overwrite attr id).text := by
  refine ⟨'<' :: (t.name ++ (if overwrite then t.attributes.filter fun a => a.name != attr
    else t.attributes).flatMap WrittenAttribute.text), t.tail, ?_⟩
  simp [withId, text, WrittenAttribute.text, Markup.written]

end StartTag

namespace Token

theorem suffix_of_afterType {stage : Stage} {s rest : List Char} (h : afterType stage s = some rest) :
    rest <:+ s := by
  induction s generalizing stage with
  | nil => cases h
  | cons c s ih =>
      refine List.IsSuffix.trans ?_ (List.suffix_cons c s)
      cases stage with
      | quoted quote =>
          rw [afterType] at h
          exact ih h
      | bracketed =>
          rw [afterType] at h
          split at h
          · rw [Option.orElse_eq_or] at h
            rcases Option.or_eq_some_iff.mp h with h | ⟨_, h⟩
            · exact ih h
            · exact ih h
          · exact ih h
      | outside =>
          rw [afterType] at h
          split at h
          · cases h
            exact List.suffix_refl _
          · split at h
            · exact ih h
            · split at h
              · exact ih h
              · exact ih h

theorem suffix_of_afterBetween {start stop s rest : List Char}
    (h : afterBetween start stop s = some rest) : rest <:+ s := by
  obtain ⟨r, hr, hcut⟩ := Option.bind_eq_some_iff.mp h
  obtain ⟨⟨content, rest'⟩, hcontent, rfl⟩ := Option.map_eq_some_iff.mp hcut
  refine ⟨start ++ content ++ stop, ?_⟩
  rw [after?_eq_some_iff.mp hr, cutAt_eq_some hcontent]
  simp

theorem suffix_of_afterOther {s rest : List Char} (h : afterOther s = some rest) : rest <:+ s := by
  unfold afterOther at h
  simp only [Option.orElse_eq_or] at h
  rcases Option.or_eq_some_iff.mp h with h | ⟨_, h⟩
  · exact suffix_of_afterBetween h
  rcases Option.or_eq_some_iff.mp h with h | ⟨_, h⟩
  · exact suffix_of_afterBetween h
  rcases Option.or_eq_some_iff.mp h with h | ⟨_, h⟩
  · exact suffix_of_afterBetween h
  obtain ⟨r, hr, htype⟩ := Option.bind_eq_some_iff.mp h
  rw [after?_eq_some_iff.mp hr]
  exact (suffix_of_afterType htype).trans (List.suffix_append _ _)

theorem suffix_of_afterEndTag {s rest : List Char} (h : afterEndTag s = some rest) : rest <:+ s := by
  unfold afterEndTag at h
  split at h
  next r =>
    simp only [List.span_eq_takeWhile_dropWhile] at h
    split at h
    next rest' hrest =>
      split at h
      · cases h
      · cases h
        have hsub : '>' :: rest <:+ r :=
          hrest ▸ (List.dropWhile_suffix _).trans (List.dropWhile_suffix _)
        exact (List.suffix_cons _ _).trans (hsub.trans ((List.suffix_cons _ _).trans
          (List.suffix_cons _ _)))
    next => cases h
  next => cases h

theorem before_append {s rest : List Char} (h : rest <:+ s) : before s rest ++ rest = s := by
  obtain ⟨start, rfl⟩ := h
  rw [before, List.length_append, Nat.add_sub_cancel, List.take_left]

theorem read?_eq_some {s rest : List Char} {token : Token} (h : read? s = some (token, rest)) :
    s = token.text ++ rest := by
  unfold read? at h
  split at h
  next => cases h
  next =>
    split at h
    next r hr =>
      cases h
      exact (before_append (suffix_of_afterOther hr)).symm
    next =>
      split at h
      next r hr =>
        cases h
        exact (before_append (suffix_of_afterEndTag hr)).symm
      next =>
        obtain ⟨⟨tag, r⟩, hr, he⟩ := Option.map_eq_some_iff.mp h
        cases he
        exact (StartTag.read?_eq_some hr).1
  next =>
    simp only [List.span_eq_takeWhile_dropWhile] at h
    cases h
    exact List.takeWhile_append_dropWhile.symm

theorem listFrom_eq (fuel : Nat) (s : List Char) :
    s = (listFrom fuel s).1.flatMap text ++ (listFrom fuel s).2 := by
  induction fuel generalizing s with
  | zero => rfl
  | succ fuel ih =>
      rw [listFrom]
      split
      next => rfl
      next token rest h =>
        conv_lhs => rw [read?_eq_some h, ih rest]
        simp

/-- The texts of the tokens and what follows the last of them are the text. -/
theorem list_eq (s : List Char) : s = (list s).1.flatMap text ++ (list s).2 := listFrom_eq _ s

end Token

end MarkupIds.Xml
