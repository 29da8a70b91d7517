import Mathlib.Data.List.TakeWhile
import MarkupIds.Options.Basic
import MarkupIds.Markup.Escape
import MarkupIds.Proofs.Text.Cut
import MarkupIds.Proofs.Xml.Token

/-! The tokens of a text whose start tags are written anew. A token stands for itself, whatever comes
behind it, unless it is a document type that hides its end; so the new text has the old tokens with the new start
tags. -/

namespace MarkupIds.Xml

open MarkupIds.Text (isBlank after? cutAt cutBy span_append)

theorem not_of_head?_dropWhile {p : Char → Bool} {s : List Char} {c : Char}
    (h : (s.dropWhile p).head? = some c) : p c = false := by
  have hnot := List.head?_dropWhile_not p s
  rw [h] at hnot
  exact hnot

namespace WrittenAttribute

/-- An attribute as the reader of tokens finds it. -/
structure Proper (a : WrittenAttribute) : Prop where
  lead_ne : a.lead ≠ []
  lead : ∀ c ∈ a.lead, isBlank c = true
  name_ne : a.name ≠ []
  name : ∀ c ∈ a.name, isNameChar c = true
  link : ∃ before behind, a.link = before ++ '=' :: behind ∧ (∀ c ∈ before, isBlank c = true) ∧
    ∀ c ∈ behind, isBlank c = true
  quote : a.quote = '"' ∨ a.quote = '\''
  value : a.quote ∉ a.value

theorem isNameChar_of_isBlank {c : Char} (h : isBlank c = true) : isNameChar c = false := by
  simp [isNameChar, h]

theorem isBlank_of_isNameChar {c : Char} (h : isNameChar c = true) : isBlank c = false := by
  simp [isNameChar] at h
  exact h.1.1.1

theorem proper_of_read? {s rest : List Char} {a : WrittenAttribute} (h : read? s = some (a, rest)) :
    a.Proper := by
  unfold read? at h
  simp only [List.span_eq_takeWhile_dropWhile] at h
  split at h
  next => cases h
  next hempty =>
    split at h
    next r hr =>
      split at h
      next quote r' hr' =>
        split at h
        next hquote =>
          obtain ⟨⟨value, rest'⟩, hcut, he⟩ := Option.map_eq_some_iff.mp h
          cases he
          simp only [Bool.or_eq_true, List.isEmpty_iff, not_or] at hempty
          refine ⟨hempty.1, fun c => List.mem_takeWhile_imp, hempty.2, fun c => List.mem_takeWhile_imp,
            ⟨_, _, rfl, fun c => List.mem_takeWhile_imp, fun c => List.mem_takeWhile_imp⟩, ?_,
            (Text.cutAt_singleton_iff.mp hcut).2⟩
          simpa using hquote
        next => cases h
      next => cases h
    next => cases h

/-- An attribute is read as it is written, whatever follows it. -/
theorem Proper.read?_eq {a : WrittenAttribute} (ha : a.Proper) (rest : List Char) :
    read? (a.text ++ rest) = some (a, rest) := by
  obtain ⟨hlead_ne, hlead, hname_ne, hname, ⟨before, behind, hlink, hbefore, hbehind⟩, hquote, hvalue⟩ := ha
  have hmark : isBlank a.quote = false := by obtain hq | hq := hquote <;> rw [hq] <;> decide
  have htext : a.text ++ rest =
      a.lead ++ (a.name ++ (before ++ '=' :: (behind ++ a.quote :: (a.value ++ a.quote :: rest)))) := by
    simp [text, hlink]
  have hleadSpan := span_append (s := a.name ++ (before ++ '=' ::
      (behind ++ a.quote :: (a.value ++ a.quote :: rest)))) hlead fun c hc => by
    cases hn : a.name with
    | nil => exact absurd hn hname_ne
    | cons d name =>
        rw [hn] at hc
        cases hc
        exact isBlank_of_isNameChar (hname _ (hn ▸ List.mem_cons_self))
  have hnameSpan := span_append (s := before ++ '=' :: (behind ++ a.quote :: (a.value ++ a.quote :: rest)))
      hname fun c hc => by
    cases hb : before with
    | nil =>
        rw [hb] at hc
        cases hc
        decide
    | cons d before =>
        rw [hb] at hc
        cases hc
        exact isNameChar_of_isBlank (hbefore _ (hb ▸ List.mem_cons_self))
  have hbeforeSpan := span_append (s := '=' :: (behind ++ a.quote :: (a.value ++ a.quote :: rest)))
      hbefore fun c hc => by
    cases hc
    decide
  have hbehindSpan := span_append (s := a.quote :: (a.value ++ a.quote :: rest)) hbehind fun c hc => by
    cases hc
    exact hmark
  have hcut : cutAt [a.quote] (a.value ++ a.quote :: rest) = some (a.value, rest) :=
    Text.cutAt_singleton_iff.mpr ⟨rfl, hvalue⟩
  have hquotes : (a.quote == '"' || a.quote == '\'') = true := by simpa using hquote
  unfold read?
  rw [htext, hleadSpan]
  simp only [hnameSpan, hbeforeSpan, hbehindSpan, hcut, hquotes, if_true, Option.map_some,
    List.isEmpty_eq_false_iff.mpr hlead_ne, List.isEmpty_eq_false_iff.mpr hname_ne, Bool.or_self,
    Bool.false_eq_true, if_false, ← hlink]

theorem Proper.head?_text {a : WrittenAttribute} (ha : a.Proper) :
    ∃ c s, a.text = c :: s ∧ isBlank c = true := by
  cases hlead : a.lead with
  | nil => exact absurd hlead ha.lead_ne
  | cons c lead =>
      exact ⟨c, lead ++ a.name ++ a.link ++ a.quote :: (a.value ++ [a.quote]), by simp [text, hlead],
        ha.lead c (hlead ▸ List.mem_cons_self)⟩

end WrittenAttribute

namespace StartTag

/-- A start tag as the reader of tokens finds it. -/
structure Proper (t : StartTag) : Prop where
  name_ne : t.name ≠ []
  name : ∀ c ∈ t.name, isNameChar c = true
  attributes : ∀ a ∈ t.attributes, a.Proper
  tail : ∃ blanks, (∀ c ∈ blanks, isBlank c = true) ∧
    (t.tail = blanks ++ ['>'] ∨ t.tail = blanks ++ ['/', '>'])

theorem proper_of_readAttributes (fuel : Nat) (s : List Char) :
    ∀ a ∈ (readAttributes fuel s).1, a.Proper := by
  induction fuel generalizing s with
  | zero => exact List.forall_mem_nil _
  | succ fuel ih =>
      rw [readAttributes]
      split
      next => exact List.forall_mem_nil _
      next a rest h =>
        exact List.forall_mem_cons.mpr ⟨WrittenAttribute.proper_of_read? h, ih rest⟩

theorem tail_of_readTail? {s tail rest : List Char} (h : readTail? s = some (tail, rest)) :
    ∃ blanks, (∀ c ∈ blanks, isBlank c = true) ∧ (tail = blanks ++ ['>'] ∨ tail = blanks ++ ['/', '>']) := by
  unfold readTail? at h
  rw [List.span_eq_takeWhile_dropWhile] at h
  dsimp only at h
  refine ⟨s.takeWhile isBlank, fun c => List.mem_takeWhile_imp, ?_⟩
  split at h
  next => cases h; exact .inl rfl
  next => cases h; exact .inr rfl
  next => cases h

theorem proper_of_read? {s rest : List Char} {t : StartTag} (h : read? s = some (t, rest)) : t.Proper := by
  unfold read? at h
  split at h
  next r =>
    simp only [List.span_eq_takeWhile_dropWhile] at h
    split at h
    · cases h
    next hempty =>
      obtain ⟨⟨tail, rest'⟩, htail, he⟩ := Option.map_eq_some_iff.mp h
      cases he
      exact ⟨fun hnil => hempty (List.isEmpty_iff.mpr hnil), fun c => List.mem_takeWhile_imp,
        proper_of_readAttributes _ _, tail_of_readTail? htail⟩
  next => cases h

/-- The end of a tag is no attribute. -/
theorem read?_of_tail {tail : List Char}
    (h : ∃ blanks, (∀ c ∈ blanks, isBlank c = true) ∧ (tail = blanks ++ ['>'] ∨ tail = blanks ++ ['/', '>']))
    (rest : List Char) : WrittenAttribute.read? (tail ++ rest) = none := by
  obtain ⟨blanks, hblanks, htail⟩ := h
  have hspan (c : Char) (s : List Char) (hc : isBlank c = false) (hname : WrittenAttribute.isNameChar c = false) :
      WrittenAttribute.read? (blanks ++ c :: s) = none := by
    have hlead := span_append (s := c :: s) hblanks fun d hd => by cases hd; exact hc
    have hempty : (c :: s).takeWhile WrittenAttribute.isNameChar = [] :=
      List.takeWhile_cons_of_neg (by simp [hname])
    unfold WrittenAttribute.read?
    rw [hlead]
    simp only [List.span_eq_takeWhile_dropWhile, hempty, List.isEmpty_nil, Bool.or_true, if_true]
  obtain htail | htail := htail
  · rw [htail, List.append_assoc]
    exact hspan '>' rest (by decide) (by decide)
  · rw [htail, List.append_assoc]
    exact hspan '/' ('>' :: rest) (by decide) (by decide)

namespace Proper

variable {t : StartTag}

theorem read?_tail (ht : t.Proper) (rest : List Char) : WrittenAttribute.read? (t.tail ++ rest) = none :=
  read?_of_tail ht.tail rest

theorem readTail?_eq (ht : t.Proper) (rest : List Char) :
    readTail? (t.tail ++ rest) = some (t.tail, rest) := by
  obtain ⟨blanks, hblanks, htail⟩ := ht.tail
  unfold readTail?
  obtain htail | htail := htail
  · have hspan := span_append (s := '>' :: rest) hblanks fun c hc => by cases hc; decide
    simp only [htail, List.append_assoc, List.singleton_append, hspan]
  · have hspan := span_append (s := '/' :: '>' :: rest) hblanks fun c hc => by cases hc; decide
    simp only [htail, List.append_assoc, List.cons_append, List.nil_append, hspan]

theorem readAttributes_eq {attributes : List WrittenAttribute} (h : ∀ a ∈ attributes, a.Proper)
    {s : List Char} (hs : WrittenAttribute.read? s = none) {fuel : Nat} (hfuel : attributes.length ≤ fuel) :
    readAttributes fuel (attributes.flatMap WrittenAttribute.text ++ s) = (attributes, s) := by
  induction attributes generalizing fuel with
  | nil =>
      cases fuel with
      | zero => rfl
      | succ fuel =>
          rw [List.flatMap_nil, List.nil_append, readAttributes, hs]
  | cons a attributes ih =>
      obtain ⟨ha, hrest⟩ := List.forall_mem_cons.mp h
      obtain ⟨fuel, rfl⟩ : ∃ n, fuel = n + 1 := ⟨fuel - 1, by rw [List.length_cons] at hfuel; omega⟩
      rw [List.flatMap_cons, List.append_assoc, readAttributes, ha.read?_eq]
      dsimp only
      rw [ih hrest (by rw [List.length_cons] at hfuel; omega)]

theorem length_le_attributes {attributes : List WrittenAttribute} (h : ∀ a ∈ attributes, a.Proper) (s : List Char) :
    attributes.length ≤ (attributes.flatMap WrittenAttribute.text ++ s).length := by
  induction attributes with
  | nil => exact Nat.zero_le _
  | cons a attributes ih =>
      obtain ⟨ha, hrest⟩ := List.forall_mem_cons.mp h
      obtain ⟨d, u, hd, -⟩ := ha.head?_text
      have hmore := ih hrest
      rw [List.flatMap_cons, hd]
      simp only [List.length_cons, List.cons_append, List.length_append] at hmore ⊢
      omega

/-- The name of a tag ends at white space or at the end of the tag. -/
theorem stop (ht : t.Proper) (rest : List Char) (c : Char)
    (hc : (t.attributes.flatMap WrittenAttribute.text ++ (t.tail ++ rest)).head? = some c) :
    isBlank c = true ∨ c = '/' ∨ c = '>' := by
  cases hattributes : t.attributes with
  | cons a attributes =>
      obtain ⟨d, s, hd, hblank⟩ := (ht.attributes a (hattributes ▸ List.mem_cons_self)).head?_text
      rw [hattributes, List.flatMap_cons, hd] at hc
      cases hc
      exact .inl hblank
  | nil =>
      rw [hattributes, List.flatMap_nil, List.nil_append] at hc
      obtain ⟨blanks, hblanks, htail⟩ := ht.tail
      cases blanks with
      | cons d blanks =>
          have hd : d = c := by obtain htail | htail := htail <;> simpa [htail] using hc
          exact .inl (hd ▸ hblanks d List.mem_cons_self)
      | nil =>
          obtain htail | htail := htail
          · rw [htail] at hc
            cases hc
            exact .inr (.inr rfl)
          · rw [htail] at hc
            cases hc
            exact .inr (.inl rfl)

/-- A start tag is read as it is written, whatever follows it. -/
theorem read?_eq (ht : t.Proper) (rest : List Char) : read? (t.text ++ rest) = some (t, rest) := by
  have htext : t.text ++ rest =
      '<' :: (t.name ++ (t.attributes.flatMap WrittenAttribute.text ++ (t.tail ++ rest))) := by
    simp [text]
  have hstop : ∀ c, (t.attributes.flatMap WrittenAttribute.text ++ (t.tail ++ rest)).head? = some c →
      isNameChar c = false := fun c hc => by
    obtain hblank | rfl | rfl := ht.stop rest c hc
    · simp [isNameChar, hblank]
    all_goals decide
  unfold read?
  rw [htext]
  simp only [span_append ht.name hstop, List.isEmpty_eq_false_iff.mpr ht.name_ne, Bool.false_eq_true, if_false,
    readAttributes_eq ht.attributes (ht.read?_tail rest) (length_le_attributes ht.attributes _), ht.readTail?_eq rest,
    Option.map_some]

/-- A start tag with an id is one that can be read. -/
theorem withId (ht : t.Proper) {attr : List Char} (hattr : isAttrName attr = true) (overwrite : Bool)
    (id : List Char) : (t.withId overwrite attr id).Proper := by
  obtain ⟨hne, hall⟩ := Bool.and_eq_true_iff.mp hattr
  have hname : ∀ c ∈ attr, WrittenAttribute.isNameChar c = true := by
    intro c hc
    have hchar := List.all_eq_true.mp hall c hc
    simp [isAttrChar] at hchar
    simp [WrittenAttribute.isNameChar]
    tauto
  refine ⟨ht.name_ne, ht.name, ?_, ht.tail⟩
  intro a ha
  obtain ha | ha := List.mem_append.mp ha
  · refine ht.attributes a ?_
    split at ha
    · exact (List.mem_filter.mp ha).1
    · exact ha
  · obtain rfl := List.mem_singleton.mp ha
    exact {
      lead_ne := List.cons_ne_nil _ _
      lead := List.forall_mem_singleton.mpr (by decide)
      name_ne := fun hnil => by
        rw [show attr = [] from hnil] at hne
        cases hne
      name := hname
      link := ⟨[], [], rfl, List.forall_mem_nil _, List.forall_mem_nil _⟩
      quote := .inl rfl
      value := Markup.quote_not_mem_escape id }

end Proper

/-- An id that is written once more takes the place of itself. -/
theorem withId_withId (t : StartTag) (attr id : List Char) :
    (t.withId true attr id).withId true attr id = t.withId true attr id := by
  simp [withId]

end StartTag

namespace Token

/-- What opens a construct that is no tag, and what closes it before the bracket. -/
inductive Aside : List Char → List Char → Prop where
  | comment : Aside "<!--".toList ['-', '-']
  | characters : Aside "<![CDATA[".toList [']', ']']
  | instruction : Aside "<?".toList ['?']

namespace Aside

variable {start mark : List Char} (h : Aside start mark)

include h

theorem bracket_not_mem : '>' ∉ mark := by cases h <;> decide

theorem start_eq : ∃ start', start = '<' :: start' := by cases h <;> exact ⟨_, rfl⟩

/-- The constructs that are no tags are told apart by what opens them. -/
theorem afterOther_eq (s : List Char) :
    afterOther (start ++ s) = afterBetween start (mark ++ ['>']) (start ++ s) := by
  have hnone {a b : Option (List Char)} (hb : b = none) : (a.orElse fun _ => b) = a := by
    rw [hb]
    cases a <;> rfl
  unfold afterOther
  cases h with
  | comment => exact hnone rfl
  | characters =>
      have hfirst : afterBetween "<!--".toList "-->".toList ("<![CDATA[".toList ++ s) = none := rfl
      rw [hfirst]
      exact hnone rfl
  | instruction =>
      have hfirst : afterBetween "<!--".toList "-->".toList ("<?".toList ++ s) = none := rfl
      have hsecond : afterBetween "<![CDATA[".toList "]]>".toList ("<?".toList ++ s) = none := rfl
      rw [hfirst, hsecond]
      exact hnone rfl

end Aside

/-- A tag starts none of the other constructs. -/
theorem afterOther_eq_none {c : Char} (s : List Char) (hc : c ≠ '!') (hc' : c ≠ '?') :
    afterOther ('<' :: c :: s) = none := by
  have hbang (mark : List Char) : after? ('<' :: '!' :: mark) ('<' :: c :: s) = none := by
    simp [after?, Ne.symm hc]
  have hquestion : after? "<?".toList ('<' :: c :: s) = none := by simp [after?, Ne.symm hc']
  have hcomment : after? "<!--".toList ('<' :: c :: s) = none := hbang ['-', '-']
  have hsection : after? "<![CDATA[".toList ('<' :: c :: s) = none := hbang "[CDATA[".toList
  have htype : after? "<!DOCTYPE".toList ('<' :: c :: s) = none := hbang "DOCTYPE".toList
  unfold afterOther afterBetween
  rw [hcomment, hsection, hquestion, htype]
  rfl

theorem afterBetween_piece {start mark piece rest : List Char} (hmark : '>' ∉ mark)
    (h : afterBetween start (mark ++ ['>']) (piece ++ rest) = some rest) (t : List Char) :
    afterBetween start (mark ++ ['>']) (piece ++ t) = some t ∧ ∃ u, piece = start ++ (u ++ ['>']) := by
  obtain ⟨r, hr, hcut⟩ := Option.bind_eq_some_iff.mp h
  obtain ⟨⟨content, rest'⟩, hcontent, rfl⟩ := Option.map_eq_some_iff.mp hcut
  have hs := Text.after?_eq_some_iff.mp hr
  have hsplit : piece = start ++ (content ++ (mark ++ ['>'])) := by
    refine List.append_cancel_right (?_ : _ ++ rest' = _ ++ rest')
    rw [hs, Text.cutAt_eq_some hcontent]
    simp
  have hpiece : cutAt (mark ++ ['>']) ((content ++ (mark ++ ['>'])) ++ rest') = some (content, rest') := by
    rw [List.append_assoc, ← Text.cutAt_eq_some hcontent]
    exact hcontent
  refine ⟨?_, content ++ mark, by rw [hsplit, List.append_assoc]⟩
  have hagain := (Text.endsAtBracket_mark hmark).cutBy_piece hpiece t
  unfold afterBetween
  rw [hsplit, List.append_assoc, Text.after?_eq_some_iff.mpr rfl, Option.bind_some]
  exact congrArg (Option.map Prod.snd) hagain

/-- A character of a document type that neither ends it nor hides what would. -/
def isTypeChar (c : Char) : Bool := !(c == '[' || c == '>' || c == '"' || c == '\'')

theorem afterType_plain {body : List Char} (h : ∀ c ∈ body, isTypeChar c = true) (rest : List Char) :
    afterType .outside (body ++ '>' :: rest) = some rest := by
  induction body with
  | nil => rw [List.nil_append, afterType, if_pos (beq_self_eq_true '>')]
  | cons c body ih =>
      obtain ⟨hc, hbody⟩ := List.forall_mem_cons.mp h
      simp only [isTypeChar, Bool.not_eq_true', Bool.or_eq_false_iff] at hc
      obtain ⟨⟨⟨hopen, hclose⟩, hdouble⟩, hsingle⟩ := hc
      rw [List.cons_append, afterType]
      simp only [hopen, hclose, hdouble, hsingle, Bool.or_self, Bool.false_eq_true, if_false]
      exact ih hbody

/-- A document type is nothing else. -/
theorem afterOther_type (r : List Char) : afterOther ("<!DOCTYPE".toList ++ r) = afterType .outside r := by
  unfold afterOther
  rw [Text.after?_eq_some_iff.mpr rfl]
  rfl

/-- The characters of an end tag's name, as the reader of tokens takes them. -/
def isClosingChar (c : Char) : Bool := !(isBlank c || c == '>')

theorem exists_of_afterEndTag {s rest : List Char} (h : afterEndTag s = some rest) :
    ∃ name blanks, s = '<' :: '/' :: (name ++ (blanks ++ '>' :: rest)) ∧ name ≠ [] ∧
      (∀ c ∈ name, isClosingChar c = true) ∧ ∀ c ∈ blanks, isBlank c = true := by
  unfold afterEndTag at h
  split at h
  next r =>
    simp only [List.span_eq_takeWhile_dropWhile] at h
    split at h
    next rest' hrest =>
      split at h
      next => cases h
      next hempty =>
        cases h
        refine ⟨_, (r.dropWhile isClosingChar).takeWhile isBlank, ?_,
          fun hnil => hempty (List.isEmpty_iff.mpr hnil), fun c => List.mem_takeWhile_imp,
          fun c => List.mem_takeWhile_imp⟩
        rw [← hrest]
        exact congrArg ('<' :: '/' :: ·) (by
          rw [show (r.dropWhile fun c => !(isBlank c || c == '>')) = r.dropWhile isClosingChar from rfl,
            List.takeWhile_append_dropWhile]
          exact List.takeWhile_append_dropWhile.symm)
    next => cases h
  next => cases h

theorem afterEndTag_append {name blanks : List Char} (hne : name ≠ [])
    (hname : ∀ c ∈ name, isClosingChar c = true) (hblanks : ∀ c ∈ blanks, isBlank c = true)
    (t : List Char) : afterEndTag ('<' :: '/' :: (name ++ (blanks ++ '>' :: t))) = some t := by
  have hnameSpan := span_append (s := blanks ++ '>' :: t) hname fun c hc => by
    cases blanks with
    | nil =>
        cases hc
        decide
    | cons d blanks =>
        have hblank := hblanks d List.mem_cons_self
        obtain rfl : d = c := Option.some.inj hc
        simp [isClosingChar, hblank]
  have hdrop : (blanks ++ '>' :: t).dropWhile isBlank = '>' :: t := by
    rw [List.dropWhile_append_of_pos hblanks, List.dropWhile_cons_of_neg (by decide)]
  unfold isClosingChar at hnameSpan
  unfold afterEndTag
  simp only [hnameSpan, hdrop, List.isEmpty_eq_false_iff.mpr hne, Bool.false_eq_true, if_false]

/-- What a token is found by: the text, the token at its start, and what follows it. Document types are
among them only if nothing in them hides their end. -/
inductive Found : List Char → Token → List Char → Prop where
  | aside {start mark piece rest : List Char} (kind : Aside start mark)
      (found : afterBetween start (mark ++ ['>']) (piece ++ rest) = some rest) :
      Found (piece ++ rest) (.other piece) rest
  | type {body : List Char} (rest : List Char) (plain : ∀ c ∈ body, isTypeChar c = true) :
      Found ("<!DOCTYPE".toList ++ (body ++ '>' :: rest)) (.other ("<!DOCTYPE".toList ++ (body ++ ['>']))) rest
  | closing {name blanks : List Char} (rest : List Char) (ne : name ≠ [])
      (named : ∀ c ∈ name, isClosingChar c = true) (blank : ∀ c ∈ blanks, isBlank c = true) :
      Found ('<' :: '/' :: (name ++ (blanks ++ '>' :: rest)))
        (.closing ('<' :: '/' :: (name ++ (blanks ++ ['>'])))) rest
  | opening {t : StartTag} (rest : List Char) (proper : t.Proper) : Found (t.text ++ rest) (.opening t) rest
  | text {raw rest : List Char} (ne : raw ≠ []) (plain : ∀ c ∈ raw, (c != '<') = true)
      (ends : ∀ c, rest.head? = some c → c = '<') : Found (raw ++ rest) (.other raw) rest

theorem before_left (piece rest : List Char) : before (piece ++ rest) rest = piece := by
  rw [before, List.length_append, Nat.add_sub_cancel, List.take_left]

theorem closing_split (name blanks rest : List Char) :
    '<' :: '/' :: (name ++ (blanks ++ '>' :: rest)) = '<' :: '/' :: (name ++ (blanks ++ ['>'])) ++ rest := by
  simp

theorem type_split (body rest : List Char) :
    "<!DOCTYPE".toList ++ (body ++ '>' :: rest) = "<!DOCTYPE".toList ++ (body ++ ['>']) ++ rest := by
  simp only [List.append_assoc, List.singleton_append]

theorem found_of_read? {s rest : List Char} {token : Token} (h : read? s = some (token, rest))
    (htype : after? "<!DOCTYPE".toList s = none) : Found s token rest := by
  unfold read? at h
  split at h
  next => cases h
  next r =>
    split at h
    next rest' hother =>
      cases h
      have hpiece := before_append (suffix_of_afterOther hother)
      unfold afterOther at hother
      rw [htype, Option.bind_none] at hother
      simp only [Option.orElse_eq_or, Option.or_none] at hother
      have haside {start mark : List Char} (kind : Aside start mark)
          (h : afterBetween start (mark ++ ['>']) ('<' :: r) = some rest) :
          Found ('<' :: r) (.other (before ('<' :: r) rest)) rest := by
        rw [← hpiece] at h
        have hfound := Found.aside kind h
        rw [hpiece] at hfound
        exact hfound
      obtain hcomment | ⟨-, hother⟩ := Option.or_eq_some_iff.mp hother
      · exact haside .comment hcomment
      obtain hcharacters | ⟨-, hinstruction⟩ := Option.or_eq_some_iff.mp hother
      · exact haside .characters hcharacters
      · exact haside .instruction hinstruction
    next =>
      split at h
      next rest' hend =>
        cases h
        obtain ⟨name, blanks, hs, hne, hname, hblanks⟩ := exists_of_afterEndTag hend
        rw [hs, closing_split, before_left, ← closing_split]
        exact .closing rest hne hname hblanks
      next =>
        obtain ⟨⟨tag, rest'⟩, htag, he⟩ := Option.map_eq_some_iff.mp h
        cases he
        rw [(StartTag.read?_eq_some htag).1]
        exact .opening rest (StartTag.proper_of_read? htag)
  next hnil hbracket =>
    simp only [List.span_eq_takeWhile_dropWhile] at h
    cases h
    have hsplit := List.takeWhile_append_dropWhile (p := (· != '<')) (l := s)
    have hne : s.takeWhile (· != '<') ≠ [] := by
      cases s with
      | nil => exact absurd rfl hnil
      | cons c s =>
          have hc : c ≠ '<' := by
            rintro rfl
            exact hbracket s rfl
          rw [List.takeWhile_cons_of_pos (by simpa using hc)]
          exact List.cons_ne_nil _ _
    have hends : ∀ c, (s.dropWhile (· != '<')).head? = some c → c = '<' := fun c hc => by
      simpa using not_of_head?_dropWhile (p := (· != '<')) hc
    have hfound := Found.text hne (fun c => List.mem_takeWhile_imp) hends
    rw [hsplit] at hfound
    exact hfound

namespace Found

variable {s rest : List Char} {token : Token}

theorem text_eq (h : Found s token rest) : s = token.text ++ rest := by
  cases h with
  | aside kind found => rfl
  | type rest plain => exact type_split _ _
  | closing rest ne named blank => exact closing_split _ _ _
  | opening rest proper => rfl
  | text ne plain ends => rfl

theorem text_ne_nil (h : Found s token rest) : token.text ≠ [] := by
  cases h with
  | aside kind found =>
      obtain ⟨start', hstart⟩ := kind.start_eq
      obtain ⟨-, u, hu⟩ := afterBetween_piece kind.bracket_not_mem found []
      rw [Token.text, hu, hstart]
      exact List.cons_ne_nil _ _
  | type rest plain => exact List.cons_ne_nil _ _
  | closing rest ne named blank => exact List.cons_ne_nil _ _
  | opening rest proper => exact List.cons_ne_nil _ _
  | text ne plain ends => exact ne

theorem length_lt (h : Found s token rest) : rest.length < s.length := by
  have hpos := List.length_pos_iff.mpr h.text_ne_nil
  rw [h.text_eq, List.length_append]
  omega

/-- A token that is found is read. -/
theorem read?_eq (h : Found s token rest) : read? s = some (token, rest) := by
  cases h with
  | @aside start mark piece rest kind found =>
      obtain ⟨start', hstart⟩ := kind.start_eq
      obtain ⟨-, u, hu⟩ := afterBetween_piece kind.bracket_not_mem found []
      have hother : afterOther (piece ++ rest) = some rest := by
        rw [hu, List.append_assoc] at found ⊢
        rw [kind.afterOther_eq]
        exact found
      have hbefore := before_left piece rest
      have hcons : ∃ v, piece ++ rest = '<' :: v := ⟨start' ++ (u ++ ['>']) ++ rest, by rw [hu, hstart]; simp⟩
      obtain ⟨v, hv⟩ := hcons
      rw [hv] at hother hbefore ⊢
      simp only [read?, hother, hbefore]
  | @type body rest plain =>
      have hother := (afterOther_type (body ++ '>' :: rest)).trans (afterType_plain plain rest)
      have hbefore := before_left ("<!DOCTYPE".toList ++ (body ++ ['>'])) rest
      rw [← type_split] at hbefore
      have hcons : "<!DOCTYPE".toList ++ (body ++ '>' :: rest) = '<' :: ("!DOCTYPE".toList ++ (body ++ '>' :: rest)) := rfl
      rw [hcons] at hother hbefore ⊢
      simp only [read?, hother, hbefore]
  | @closing name blanks rest ne named blank =>
      have hother := afterOther_eq_none (name ++ (blanks ++ '>' :: rest)) (by decide : '/' ≠ '!') (by decide)
      have hbefore := before_left ('<' :: '/' :: (name ++ (blanks ++ ['>']))) rest
      rw [← closing_split] at hbefore
      simp only [read?, hother, afterEndTag_append ne named blank, hbefore]
  | @opening t rest proper =>
      cases hname : t.name with
      | nil => exact absurd hname proper.name_ne
      | cons c name =>
          have hc := proper.name c (hname ▸ List.mem_cons_self)
          simp only [StartTag.isNameChar, Bool.not_eq_true', Bool.or_eq_false_iff, beq_eq_false_iff_ne] at hc
          obtain ⟨⟨⟨⟨-, hslash⟩, -⟩, hbang⟩, hquestion⟩ := hc
          have hread := proper.read?_eq rest
          have htext : t.text ++ rest =
              '<' :: c :: (name ++ (t.attributes.flatMap WrittenAttribute.text ++ (t.tail ++ rest))) := by
            simp [StartTag.text, hname]
          have hend : afterEndTag (t.text ++ rest) = none := by
            rw [htext]
            unfold afterEndTag
            split
            next heq => exact absurd (List.cons.inj (List.cons.inj heq).2).1 hslash
            next => rfl
          rw [htext] at hread hend ⊢
          simp only [read?, afterOther_eq_none _ hbang hquestion, hend, hread, Option.map_some]
  | @text raw rest ne plain ends =>
      have hspan := span_append (s := rest) plain fun c hc => by simp [ends c hc]
      unfold read?
      split
      next heq => exact absurd (List.append_eq_nil_iff.mp heq).1 ne
      next heq =>
        cases raw with
        | nil => exact absurd rfl ne
        | cons c raw =>
            have hc := plain c List.mem_cons_self
            rw [(List.cons.inj heq).1] at hc
            exact absurd hc (by decide)
      next => simp only [hspan]

/-- A token is found in front of other text as well; behind a text there has to be a tag or nothing. -/
theorem behind (h : Found s token rest) {t : List Char} (ht : t.head? = rest.head?) :
    Found (token.text ++ t) token t := by
  cases h with
  | aside kind found => exact .aside kind (afterBetween_piece kind.bracket_not_mem found t).1
  | @type body rest plain =>
      rw [Token.text, ← type_split]
      exact .type t plain
  | @closing name blanks rest ne named blank =>
      rw [Token.text, ← closing_split]
      exact .closing t ne named blank
  | opening rest proper => exact .opening t proper
  | text ne plain ends => exact .text ne plain (ht ▸ ends)

theorem proper {t : StartTag} (h : Found s (.opening t) rest) : t.Proper := by
  generalize htoken : Token.opening t = token at h
  cases h with
  | opening rest proper =>
      cases htoken
      exact proper
  | aside => cases htoken
  | type => cases htoken
  | closing => cases htoken
  | text => cases htoken

end Found

end Token

/-- `tokens` are the tokens of the whole text. -/
inductive Tokenizes : List Char → List Token → Prop where
  | done : Tokenizes [] []
  | next {s rest : List Char} {token : Token} {tokens : List Token}
      (found : Token.Found s token rest) (more : Tokenizes rest tokens) : Tokenizes s (token :: tokens)

/-- There is no document type in the text. -/
def Typeless (s : List Char) : Prop := ¬ "<!DOCTYPE".toList <:+: s

theorem Typeless.after?_eq_none {s : List Char} (h : Typeless s) : after? "<!DOCTYPE".toList s = none := by
  by_contra hne
  obtain ⟨r, hr⟩ := Option.ne_none_iff_exists'.mp hne
  exact h ⟨[], r, (Text.after?_eq_some_iff.mp hr).symm⟩

theorem Typeless.of_suffix {s t : List Char} (h : Typeless s) (ht : t <:+ s) : Typeless t :=
  fun hin => h (hin.trans ht.isInfix)

namespace Tokenizes

variable {s : List Char} {tokens : List Token}

theorem text_eq (h : Tokenizes s tokens) : s = tokens.flatMap Token.text := by
  induction h with
  | done => rfl
  | next found more ih =>
      rw [List.flatMap_cons, ← ih]
      exact found.text_eq

theorem list_eq (h : Tokenizes s tokens) : Token.list s = (tokens, []) := by
  suffices hfuel : ∀ fuel, s.length ≤ fuel → Token.listFrom fuel s = (tokens, []) from
    hfuel _ (Nat.le_refl _)
  induction h with
  | done =>
      intro fuel _
      cases fuel <;> rfl
  | next found more ih =>
      intro fuel hfuel
      have hlt := found.length_lt
      obtain ⟨fuel, rfl⟩ : ∃ n, fuel = n + 1 := ⟨fuel - 1, by omega⟩
      rw [Token.listFrom, found.read?_eq]
      dsimp only
      rw [ih fuel (by omega)]

theorem of_list (h : Token.list s = (tokens, [])) (htype : Typeless s) : Tokenizes s tokens := by
  suffices hfuel : ∀ fuel, s.length ≤ fuel → Token.listFrom fuel s = (tokens, []) → Tokenizes s tokens from
    hfuel _ (Nat.le_refl _) h
  intro fuel hle hlist
  clear h
  induction fuel generalizing s tokens with
  | zero =>
      obtain rfl := List.length_eq_zero_iff.mp (Nat.le_zero.mp hle)
      cases hlist
      exact .done
  | succ fuel ih =>
      rw [Token.listFrom] at hlist
      cases hread : Token.read? s with
      | none =>
          rw [hread] at hlist
          cases hlist
          exact .done
      | some found =>
          obtain ⟨token, rest⟩ := found
          have hfound := Token.found_of_read? hread htype.after?_eq_none
          have hlt := hfound.length_lt
          rw [hread] at hlist
          obtain ⟨rfl, hnil⟩ := Prod.mk.inj hlist
          refine .next hfound (ih (htype.of_suffix ?_) (by omega) (Prod.ext rfl hnil))
          rw [hfound.text_eq]
          exact List.suffix_append _ _

/-- Start tags that are written anew. -/
def Rewrites (token token' : Token) : Prop :=
  token' = token ∨ ∃ t t' : StartTag, token = .opening t ∧ token' = .opening t' ∧ t'.Proper

/-- A text in which start tags are written anew has the new start tags among its tokens and else the
tokens that it had. -/
theorem rewrite (h : Tokenizes s tokens) {tokens' : List Token} (hnew : List.Forall₂ Rewrites tokens tokens') :
    Tokenizes (tokens'.flatMap Token.text) tokens' ∧ (tokens'.flatMap Token.text).head? = s.head? := by
  induction h generalizing tokens' with
  | done =>
      cases hnew
      exact ⟨.done, rfl⟩
  | @next s rest token tokens found more ih =>
      obtain _ | @⟨_, token', _, tokens', hfirst, hnew⟩ := hnew
      obtain ⟨hmore, hhead⟩ := ih hnew
      have hkeep {token token' : Token} (hne : token.text ≠ []) (hne' : token'.text ≠ [])
          (h : token.text.head? = token'.text.head?) (r r' : List Char) :
          (token.text ++ r).head? = (token'.text ++ r').head? := by
        cases htext : token.text with
        | nil => exact absurd htext hne
        | cons c text =>
            cases htext' : token'.text with
            | nil => exact absurd htext' hne'
            | cons d text' =>
                rw [htext, htext'] at h
                exact h
      rw [List.flatMap_cons]
      obtain rfl | ⟨t, t', rfl, rfl, ht'⟩ := hfirst
      · refine ⟨.next (found.behind hhead) hmore, ?_⟩
        rw [found.text_eq]
        exact hkeep found.text_ne_nil found.text_ne_nil rfl _ _
      · have hfound := Token.Found.opening (tokens'.flatMap Token.text) ht'
        refine ⟨.next hfound hmore, ?_⟩
        rw [found.text_eq]
        exact hkeep hfound.text_ne_nil found.text_ne_nil rfl _ _

end Tokenizes

end MarkupIds.Xml
