import MarkupIds.Proofs.Common.Language
import MarkupIds.Proofs.Xml.Position
import MarkupIds.Proofs.Xml.Retoken

/-! The tokens of a document of the common language, and the elements that they spell. -/

namespace MarkupIds.Common

open MarkupIds.Markup (Node)
open MarkupIds.Text (isBlank)
open MarkupIds.Xml (Spells StartTag Token Tokenizes WrittenAttribute)

def Attribute.xml (a : Attribute) : WrittenAttribute := ⟨a.lead, a.name, a.before ++ '=' :: a.behind, '"', a.value⟩

def Tag.xml (t : Tag) (closed : Bool) : StartTag :=
  ⟨t.name, t.attributes.map Attribute.xml, t.blanks ++ if closed then ['/', '>'] else ['>']⟩

/-- The token of a text, if there is any. -/
def textTokens (s : List Char) : List Token := if s.isEmpty then [] else [.other s]

namespace Content

/-- The tokens of some content. -/
def tokens : Content → List Token
  | .text s => textTokens s
  | .pair before tag inside gap after =>
    textTokens before ++ .opening (tag.xml false) :: (inside.tokens ++ .closing (tag.endText gap) :: after.tokens)
  | .single before tag after => textTokens before ++ .opening (tag.xml true) :: after.tokens

/-- The elements of some content, with their tags as the tokens have them. -/
def bones : Content → List Node
  | .text _ => []
  | .pair _ tag inside _ after => .element (tag.xml false).tag inside.bones :: after.bones
  | .single _ tag after => .element (tag.xml true).tag [] :: after.bones

end Content

section Tokens

theorem Attribute.text_xml (a : Attribute) : a.xml.text = a.text := by
  simp [WrittenAttribute.text, xml, text]

theorem Tag.text_xml (t : Tag) (closed : Bool) : (t.xml closed).text = t.text closed := by
  have hattributes : (t.attributes.map Attribute.xml).flatMap WrittenAttribute.text =
      t.attributes.flatMap Attribute.text := by
    rw [List.flatMap_map]
    exact congrArg (t.attributes.flatMap ·) (funext Attribute.text_xml)
  simp only [StartTag.text, xml, hattributes, text, List.append_assoc]

theorem Tag.isEmptyElement_xml {t : Tag} (ht : t.Plain) (closed : Bool) : (t.xml closed).isEmptyElement = closed := by
  have hslash : '/' ∉ t.blanks := fun hmem => absurd (ht.blanks _ hmem) (by decide)
  cases closed <;> simp [StartTag.isEmptyElement, xml, hslash]

theorem Attribute.Plain.xml {a : Attribute} (ha : a.Plain) : a.xml.Proper where
  lead_ne := ha.lead_ne
  lead c hc := isBlank_of_isSpace (ha.lead c hc)
  name_ne h := by
    have hname := ha.name
    rw [isAttrName, show a.name = [] from h] at hname
    cases hname
  name c hc := by
    have hchar := List.all_eq_true.mp (Bool.and_eq_true_iff.mp ha.name).2 c hc
    simp only [isAttrChar, WrittenAttribute.isNameChar, Bool.not_eq_true', Bool.or_eq_false_iff] at hchar ⊢
    tauto
  link := ⟨a.before, a.behind, rfl, fun c hc => isBlank_of_isSpace (ha.before c hc),
    fun c hc => isBlank_of_isSpace (ha.behind c hc)⟩
  quote := .inl rfl
  value := ha.value

theorem Tag.Plain.xml {t : Tag} (ht : t.Plain) (closed : Bool) : (t.xml closed).Proper where
  name_ne := ht.name_ne
  name c hc := of_isLowerLetter (P := fun c => StartTag.isNameChar c = true) (by decide +kernel) (ht.name c hc)
  attributes a ha := by
    obtain ⟨b, hb, rfl⟩ := List.mem_map.mp ha
    exact (ht.attributes b hb).xml
  tail := by
    refine ⟨t.blanks, fun c hc => isBlank_of_isSpace (ht.blanks c hc), ?_⟩
    cases closed
    · exact .inl rfl
    · exact .inr rfl

variable {z : List Char} {tokens : List Token}

theorem tokenizes_text {s : List Char} (hs : IsText s) (hz : AtMarkup z) (h : Tokenizes z tokens) :
    Tokenizes (s ++ z) (textTokens s ++ tokens) := by
  unfold textTokens
  split
  next hempty =>
    rw [List.isEmpty_iff.mp hempty]
    exact h
  next hne =>
    refine .next (.text (by simpa using hne) (fun c hc => ?_) hz) h
    rw [bne_iff_ne]
    rintro rfl
    exact hs.1 hc

theorem found_tag {t : Tag} (ht : t.Plain) (closed : Bool) (z : List Char) :
    Token.Found (t.text closed ++ z) (.opening (t.xml closed)) z := by
  rw [← t.text_xml]
  exact .opening z (ht.xml closed)

theorem found_end {t : Tag} (ht : t.Plain) {gap : List Char} (hgap : IsSpaces gap) (z : List Char) :
    Token.Found (t.endText gap ++ z) (.closing (t.endText gap)) z := by
  have hsplit : t.endText gap ++ z = '<' :: '/' :: (t.name ++ (gap ++ '>' :: z)) := by simp [Tag.endText]
  rw [hsplit]
  refine .closing z ht.name_ne (fun c hc => ?_) fun c hc => isBlank_of_isSpace (hgap c hc)
  exact of_isLowerLetter (P := fun c => Token.isClosingChar c = true) (by decide +kernel) (ht.name c hc)

theorem Content.Plain.tokenizes {c : Content} (hc : c.Plain) (hz : AtMarkup z) (h : Tokenizes z tokens) :
    Tokenizes (c.written ++ z) (c.tokens ++ tokens) := by
  induction c generalizing z tokens with
  | text s => exact tokenizes_text hc hz h
  | pair before tag inside gap after ihInside ihAfter =>
      obtain ⟨hbefore, htag, hinside, hgap, hafter⟩ := hc
      have hend := Tokenizes.next (found_end htag hgap _) (ihAfter hafter hz h)
      have hall := tokenizes_text hbefore (atMarkup_tag _ _ _)
        (.next (found_tag htag false _) (ihInside hinside (atMarkup_end _ _ _) hend))
      simpa only [written, Content.tokens, List.append_assoc, List.cons_append] using hall
  | single before tag after ih =>
      obtain ⟨hbefore, htag, hafter⟩ := hc
      have hall := tokenizes_text hbefore (atMarkup_tag _ _ _) (.next (found_tag htag true _) (ih hafter hz h))
      simpa only [written, Content.tokens, List.append_assoc, List.cons_append] using hall

theorem spells_text {s : List Char} {nodes : List Node} (h : Spells tokens nodes) :
    Spells (textTokens s ++ tokens) nodes := by
  unfold textTokens
  split
  · exact h
  · exact .other s h

/-- The tokens spell the elements. -/
theorem Content.Plain.spells {c : Content} (hc : c.Plain) : Spells c.tokens c.bones := by
  induction c with
  | text s =>
      have htext := spells_text (s := s) .nil
      rw [List.append_nil] at htext
      exact htext
  | pair before tag inside gap after ihInside ihAfter =>
      obtain ⟨-, htag, hinside, -, hafter⟩ := hc
      exact spells_text (.pair _ (Tag.isEmptyElement_xml htag false) (ihInside hinside) (ihAfter hafter))
  | single before tag after ih =>
      obtain ⟨-, htag, hafter⟩ := hc
      exact spells_text (.single (Tag.isEmptyElement_xml htag true) (ih hafter))

/-- The tag of an element has what the start tag has. -/
def XmlTag (t : Markup.Tag) (tag : Tag) : Prop := ∃ closed, t = (tag.xml closed).tag

theorem Content.stands_bones (c : Content) : Stands XmlTag (fun _ nodes => nodes = []) c c.bones := by
  induction c with
  | text s => exact .text rfl
  | pair before tag inside gap after ihInside ihAfter =>
      rw [Content.bones, ← List.nil_append (_ :: _)]
      exact .pair rfl ⟨false, rfl⟩ ihInside ihAfter
  | single before tag after ih =>
      rw [Content.bones, ← List.nil_append (_ :: _)]
      exact .single rfl ⟨true, rfl⟩ ih

end Tokens

end MarkupIds.Common
