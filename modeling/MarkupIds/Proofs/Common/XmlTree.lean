import MarkupIds.Proofs.Common.Xml
import MarkupIds.Proofs.Xml.Retraced
import MarkupIds.Proofs.Xml.Slug
import MarkupIds.Xml.Document

/-! A document of the common language that is read as XML: the pieces follow its content, and the tree stands for it. -/

namespace MarkupIds.Xml.Reading

section Steps

variable {s t : State} {expand : Scope → List Char → List Char → Reading Unit} {outer : Scope} {fuel : Nat}
  {stack : List Open} {pieces : List Piece}

theorem Ran.unique {p : Char → Bool} {run run' before after after' : List Char} (h : Ran p run before after)
    (h' : Ran p run' before after') : run = run' ∧ after = after' := by
  have hspan : (run, after) = (run', after') := by
    rw [← Text.span_append h.all h.ends, ← Text.span_append h'.all h'.ends, ← h.text_eq, ← h'.text_eq]
  exact Prod.mk.inj hspan

theorem content_at_tag {c : Char} {r : List Char} (h : content expand false outer fuel stack s = .ok (pieces, t))
    (hstack : stack ≠ []) (hs : s.rest = '<' :: c :: r) (hbang : c ≠ '!') (hquestion : c ≠ '?') (hslash : c ≠ '/') :
    ∃ fuel' scope tag e closed m more, startTag scope s = .ok ((tag, e, closed), m) ∧
      content expand false outer fuel' (if closed then stack else e :: stack) m = .ok (more, t) ∧
      pieces = .opening tag :: if closed then .closing :: more else more := by
  cases fuel with
  | zero => exact absurd h fail_eq_ok
  | succ fuel =>
      have hsection : "<![CDATA[".toList.isPrefixOf s.rest = false := hs ▸ not_sees_mark hbang.symm _ _
      have hcomment : "<!--".toList.isPrefixOf s.rest = false := hs ▸ not_sees_mark hbang.symm _ _
      have hopen : stack.isEmpty = false := by simpa using hstack
      unfold content at h
      dsimp only at h
      rw [hopen, Bool.false_and, if_neg Bool.false_ne_true, bind_sees_apply, hsection, if_neg Bool.false_ne_true,
        bind_sees_apply, hcomment, if_neg Bool.false_ne_true, bind_remaining_apply] at h
      generalize s.rest = rest at h hs
      split at h
      next => cases hs
      next => cases hs
      next => exact absurd (List.cons.inj (List.cons.inj hs).2).1.symm hquestion
      next => exact absurd (List.cons.inj (List.cons.inj hs).2).1.symm hslash
      next => exact absurd (List.cons.inj (List.cons.inj hs).2).1.symm hslash
      next =>
        obtain ⟨⟨tag, e, closed⟩, m, htag, h⟩ := bind_eq_ok.mp h
        cases closed with
        | true =>
            obtain ⟨more, m', hmore, h⟩ := bind_eq_ok.mp h
            obtain ⟨rfl, rfl⟩ := pure_eq_ok.mp h
            exact ⟨fuel, _, tag, e, true, m, more, htag, hmore, rfl⟩
        | false =>
            obtain ⟨more, m', hmore, h⟩ := bind_eq_ok.mp h
            obtain ⟨rfl, rfl⟩ := pure_eq_ok.mp h
            exact ⟨fuel, _, tag, e, false, m, more, htag, hmore, rfl⟩
      next => exact absurd (List.cons.inj hs).1 (by decide)
      next => simp_all

theorem content_at_end {e : Open} {r : List Char} (h : content expand false outer fuel (e :: stack) s = .ok (pieces, t))
    (hs : s.rest = '<' :: '/' :: r) :
    ∃ fuel' m more, endTag e s = .ok ((), m) ∧ content expand false outer fuel' stack m = .ok (more, t) ∧
      pieces = .closing :: more := by
  cases fuel with
  | zero => exact absurd h fail_eq_ok
  | succ fuel =>
      have hsection : "<![CDATA[".toList.isPrefixOf s.rest = false := hs ▸ rfl
      have hcomment : "<!--".toList.isPrefixOf s.rest = false := hs ▸ rfl
      unfold content at h
      dsimp only at h
      rw [List.isEmpty_cons, Bool.false_and, if_neg Bool.false_ne_true, bind_sees_apply, hsection,
        if_neg Bool.false_ne_true, bind_sees_apply, hcomment, if_neg Bool.false_ne_true, bind_remaining_apply, hs] at h
      obtain ⟨u, m, hclose, h⟩ := bind_eq_ok.mp h
      obtain ⟨more, m', hmore, h⟩ := bind_eq_ok.mp h
      obtain ⟨rfl, rfl⟩ := pure_eq_ok.mp h
      exact ⟨fuel, m, more, hclose, hmore, rfl⟩

theorem content_at_text {c : Char} {r : List Char} (h : content expand false outer fuel stack s = .ok (pieces, t))
    (hstack : stack ≠ []) (hs : s.rest = c :: r) (hc : isDataChar c = true) :
    ∃ fuel' text m more, characterData s.rest.length.succ s = .ok (text, m) ∧
      content expand false outer fuel' stack m = .ok (more, t) ∧ pieces = .text .plain (unifyLines text) :: more := by
  simp only [isDataChar, Bool.and_eq_true, bne_iff_ne] at hc
  cases fuel with
  | zero => exact absurd h fail_eq_ok
  | succ fuel =>
      have hsection : "<![CDATA[".toList.isPrefixOf s.rest = false := hs ▸ not_sees_bracket hc.1 _ _
      have hcomment : "<!--".toList.isPrefixOf s.rest = false := hs ▸ not_sees_bracket hc.1 _ _
      have hopen : stack.isEmpty = false := by simpa using hstack
      unfold content at h
      dsimp only at h
      rw [hopen, Bool.false_and, if_neg Bool.false_ne_true, bind_sees_apply, hsection, if_neg Bool.false_ne_true,
        bind_sees_apply, hcomment, if_neg Bool.false_ne_true, bind_remaining_apply] at h
      generalize hrest : s.rest = rest at h hs
      split at h
      next => cases hs
      next => cases hs
      next => exact absurd (List.cons.inj hs).1.symm hc.1
      next => exact absurd (List.cons.inj hs).1.symm hc.1
      next => exact absurd (List.cons.inj hs).1.symm hc.1
      next => exact absurd (List.cons.inj hs).1.symm hc.1
      next => exact absurd (List.cons.inj hs).1.symm hc.2
      next =>
        rw [bind_remaining_apply] at h
        obtain ⟨text, m, htext, h⟩ := bind_eq_ok.mp h
        obtain ⟨more, m', hmore, h⟩ := bind_eq_ok.mp h
        obtain ⟨rfl, rfl⟩ := pure_eq_ok.mp h
        rw [hrest] at htext
        exact ⟨fuel, text, m, more, htext, hmore, rfl⟩

theorem content_at_close (h : content expand false outer fuel [] s = .ok (pieces, t)) : pieces = [] ∧ t = s := by
  cases fuel with
  | zero => exact absurd h fail_eq_ok
  | succ fuel =>
      unfold content at h
      obtain ⟨rfl, rfl⟩ := pure_eq_ok.mp h
      exact ⟨rfl, rfl⟩

/-- White space is passed up to the tag of an element or to the end. -/
theorem allAsides_at {blanks rest : List Char} (h : allAsides s = .ok (pieces, t)) (hs : s.rest = blanks ++ rest)
    (hblanks : ∀ c ∈ blanks, isSpace c = true)
    (hrest : rest = [] ∨ ∃ c r, rest = '<' :: c :: r ∧ c ≠ '!' ∧ c ≠ '?') : pieces = [] ∧ t.rest = rest := by
  unfold allAsides at h
  rw [bind_remaining_apply, asides] at h
  obtain ⟨b, m, hspaces, h⟩ := bind_eq_ok.mp h
  obtain ⟨hm, -⟩ := spaces_eq_ok hspaces
  have hstop : rest.dropWhile isSpace = rest := by
    obtain rfl | ⟨c, r, rfl, -, -⟩ := hrest <;> rfl
  rw [hs, List.dropWhile_append_of_pos hblanks, hstop] at hm
  obtain ⟨hinstruction, hcomment⟩ : ['<', '?'].isPrefixOf m.rest = false ∧ "<!--".toList.isPrefixOf m.rest = false := by
    rw [hm]
    obtain rfl | ⟨c, r, rfl, hbang, hquestion⟩ := hrest
    · exact ⟨rfl, rfl⟩
    · exact ⟨not_sees_mark hquestion.symm _ _, not_sees_mark hbang.symm _ _⟩
  rw [bind_sees_apply, hinstruction, if_neg Bool.false_ne_true, bind_sees_apply, hcomment,
    if_neg Bool.false_ne_true] at h
  obtain ⟨rfl, rfl⟩ := pure_eq_ok.mp h
  exact ⟨rfl, hm⟩

end Steps

end MarkupIds.Xml.Reading

namespace MarkupIds.Common

open MarkupIds.Markup (Node)
open MarkupIds.Xml (Builder Contents Piece inTag joinLineEnds oghamSpace unified)
open MarkupIds.Xml.Reading (TagName content content_at_close content_at_end content_at_tag content_at_text endTag
  endTag_written startTag startTag_written)

/-- The piece of a text, if there is any. -/
def readText (s : List Char) : List Piece := if s.isEmpty then [] else [.text .plain (unified s)]

/-- Pieces follow some content. -/
inductive Reads : Content → List Piece → Prop where
  | text (s : List Char) : Reads (.text s) (readText s)
  | pair {tag : Tag} {inside after : Content} {pieces more : List Piece} (before gap : List Char) (t : Markup.Tag) :
      Reads inside pieces → Reads after more →
        Reads (.pair before tag inside gap after) (readText before ++ .opening t :: (pieces ++ .closing :: more))
  | single {tag : Tag} {after : Content} {more : List Piece} (before : List Char) (t : Markup.Tag) : Reads after more →
      Reads (.single before tag after) (readText before ++ .opening t :: .closing :: more)

section Steps

variable {s m : Xml.State} {z : List Char}

/-- A character that stands in a tag outside of the values, and is no part of a name for one reader only. -/
def IsInner (c : Char) : Prop := (c ≠ '>' ∧ c ≠ '"' ∧ c ≠ '\'') ∧ c ≠ oghamSpace

theorem not_mem_inTag_append {run : List Char} (h : ∀ c ∈ run, IsInner c) (hz : oghamSpace ∉ inTag z) :
    oghamSpace ∉ inTag (run ++ z) := by
  rw [(Xml.outside_run fun c hc => (h c hc).1).1]
  intro hmem
  obtain hrun | hmem := List.mem_append.mp hmem
  · exact (h _ hrun).2 rfl
  · exact hz hmem

theorem isInner_of_isSpace {c : Char} (h : Xml.isSpace c = true) : IsInner c := by
  simp only [Xml.isSpace, Bool.or_eq_true, beq_iff_eq] at h
  obtain ((rfl | rfl) | rfl) | rfl := h <;> exact ⟨by decide, by decide⟩

theorem isInner_of_isAttrChar {c : Char} (h : isAttrChar c = true) : IsInner c := by
  refine ⟨⟨?_, ?_, ?_⟩, ?_⟩ <;>
    · rintro rfl
      exact absurd h (by decide)

theorem Attribute.Plain.not_mem_inTag {a : Attribute} (ha : a.Plain) (hz : oghamSpace ∉ inTag z) :
    oghamSpace ∉ inTag (a.text ++ z) := by
  have hname := List.all_eq_true.mp (Bool.and_eq_true_iff.mp ha.name).2
  have hvalue : oghamSpace ∉ inTag ('"' :: (a.value ++ '"' :: z)) := by
    rw [(Xml.outside_value (.inl rfl) ha.value).1]
    exact hz
  have hbehind := not_mem_inTag_append (fun c hc => isInner_of_isSpace (ha.behind c hc)) hvalue
  have hsign : ∀ c ∈ ['='], IsInner c := by
    simp [IsInner]
    decide
  have hequals := not_mem_inTag_append hsign hbehind
  have hbefore := not_mem_inTag_append (fun c hc => isInner_of_isSpace (ha.before c hc)) hequals
  have hall := not_mem_inTag_append (fun c hc => isInner_of_isSpace (ha.lead c hc))
    (not_mem_inTag_append (fun c hc => isInner_of_isAttrChar (hname c hc)) hbefore)
  simpa only [Attribute.text, List.append_assoc, List.cons_append, List.nil_append] using hall

theorem Tag.Plain.not_mem_inTag {t : Tag} (ht : t.Plain) (closed : Bool) (z : List Char) :
    oghamSpace ∉ inTag (t.name ++ (t.attributes.flatMap Attribute.text ++
      (t.blanks ++ if closed then ['/', '>'] else ['>'])) ++ z) := by
  have hend : oghamSpace ∉ inTag ((if closed then ['/', '>'] else ['>']) ++ z) := by
    cases closed
    · exact List.not_mem_nil
    · simp [inTag, Xml.outsideFrom, oghamSpace]
  have hblanks := not_mem_inTag_append (fun c hc => isInner_of_isSpace (ht.blanks c hc)) hend
  have hattributes : oghamSpace ∉ inTag (t.attributes.flatMap Attribute.text ++
      (t.blanks ++ ((if closed then ['/', '>'] else ['>']) ++ z))) := by
    have hplain := ht.attributes
    generalize t.attributes = attributes at hplain
    induction attributes with
    | nil => exact hblanks
    | cons a attributes ih =>
        obtain ⟨ha, hattributes⟩ := List.forall_mem_cons.mp hplain
        rw [List.flatMap_cons, List.append_assoc]
        exact ha.not_mem_inTag (ih hattributes)
  have hall := not_mem_inTag_append (fun c hc => of_isLowerLetter (P := IsInner) (by
    simp only [IsInner]
    decide +kernel) (ht.name c hc)) hattributes
  simpa only [List.append_assoc] using hall

/-- A start tag is passed. -/
theorem startTag_at {t : Tag} (ht : t.Plain) {closed closed' : Bool} {scope : Xml.Scope} {tag : Markup.Tag} {e : Xml.Open}
    (h : startTag scope s = .ok ((tag, e, closed'), m)) (hs : s.rest = joinLineEnds (t.text closed ++ z)) :
    TagName e.fullName ∧ closed' = closed ∧ m.rest = joinLineEnds z := by
  have hrest : s.rest = '<' :: joinLineEnds (t.name ++ (t.attributes.flatMap Attribute.text ++
      (t.blanks ++ if closed then ['/', '>'] else ['>'])) ++ z) := by
    rw [hs, Tag.text, List.cons_append, Xml.joinLineEnds_cons (by decide)]
  have hogham := fun hmem => ht.not_mem_inTag closed z
    ((Xml.outsideFrom_joinLineEnds none ⟨by simp, by simp⟩).2 oghamSpace hmem)
  obtain ⟨hname, -, -, w, hw, htext, -, hempty⟩ := startTag_written h hrest hogham
  have hfound : Xml.Token.Found s.rest (.opening w) m.rest := by
    rw [htext]
    exact .opening m.rest hw
  have hjoined := (found_tag ht closed z).joined
  rw [← hs] at hjoined
  obtain ⟨htoken, hz⟩ := hfound.unique hjoined
  cases htoken
  rw [Xml.StartTag.isEmptyElement_joined, Tag.isEmptyElement_xml ht] at hempty
  exact ⟨hname, hempty.symm, hz⟩

theorem joinLineEnds_endText (t : Tag) (gap z : List Char) :
    joinLineEnds (t.endText gap ++ z) = '<' :: '/' :: joinLineEnds ((t.name ++ (gap ++ ['>'])) ++ z) := by
  rw [Tag.endText, List.cons_append, List.cons_append, Xml.joinLineEnds_cons (by decide),
    Xml.joinLineEnds_cons (by decide)]

/-- An end tag is passed. -/
theorem endTag_at {t : Tag} (ht : t.Plain) {gap : List Char} (hgap : IsSpaces gap) {e : Xml.Open} {u : Unit}
    (h : endTag e s = .ok (u, m)) (he : TagName e.fullName) (hs : s.rest = joinLineEnds (t.endText gap ++ z)) :
    m.rest = joinLineEnds z := by
  obtain ⟨-, raw, hfound⟩ := endTag_written h (hs.trans (joinLineEnds_endText t gap z)) he
  have hjoined := (found_end ht hgap z).joined
  rw [← hs] at hjoined
  exact (hfound.unique hjoined).2

variable {expand : Xml.Scope → List Char → List Char → Xml.Reading Unit} {outer : Xml.Scope} {fuel : Nat}
  {stack : List Xml.Open} {pieces : List Piece} {t : Xml.State}

/-- Text is passed up to the next tag. -/
theorem content_after_text {text : List Char} (h : content expand false outer fuel stack s = .ok (pieces, t))
    (hstack : stack ≠ []) (htext : IsText text) (hz : AtMarkup z) (hs : s.rest = joinLineEnds (text ++ z)) :
    ∃ fuel' m more, content expand false outer fuel' stack m = .ok (more, t) ∧ m.rest = joinLineEnds z ∧
      pieces = readText text ++ more := by
  have hparts : Xml.Parts text z := fun hhead => absurd (hz _ hhead) (by decide)
  rw [Xml.joinLineEnds_append hparts] at hs
  cases hempty : text.isEmpty with
  | true =>
      rw [List.isEmpty_iff.mp hempty] at hs
      refine ⟨fuel, s, pieces, h, hs, ?_⟩
      rw [readText, hempty]
      rfl
  | false =>
      have hdata : ∀ c ∈ joinLineEnds text, Xml.Reading.isDataChar c = true := by
        intro c hc
        have hmem := Xml.mem_of_mem_joinLineEnds hc
        simp only [Xml.Reading.isDataChar, Bool.and_eq_true, bne_iff_ne]
        constructor
        · rintro rfl
          exact htext.1 hmem
        · rintro rfl
          exact htext.2 hmem
      have hends : ∀ c, (joinLineEnds z).head? = some c → Xml.Reading.isDataChar c = false := by
        intro c hc
        cases z with
        | nil => cases hc
        | cons d z =>
            obtain rfl := hz d rfl
            rw [Xml.joinLineEnds_cons (by decide)] at hc
            cases hc
            rfl
      cases hjoined : joinLineEnds text with
      | nil => exact absurd hjoined (Xml.joinLineEnds_ne_nil (by simpa using hempty))
      | cons c r =>
          have hfirst := hdata c (hjoined ▸ List.mem_cons_self)
          obtain ⟨fuel', run, m, more, hrun, hmore, rfl⟩ :=
            content_at_text h hstack (hs.trans (congrArg (· ++ joinLineEnds z) hjoined)) hfirst
          have hran := Xml.Reading.characterData_eq_ok (Nat.lt_succ_self _) hrun
          obtain ⟨rfl, hrest⟩ := hran.unique ⟨hs, hdata, hends⟩
          refine ⟨fuel', m, more, hmore, hrest, ?_⟩
          rw [readText, hempty]
          rfl

/-- The bracket of a start tag comes in front of a letter. -/
theorem Tag.Plain.exists_letter {tag : Tag} (htag : tag.Plain) (closed : Bool) (z : List Char) :
    ∃ c r, joinLineEnds (tag.text closed ++ z) = '<' :: c :: r ∧ c ≠ '!' ∧ c ≠ '?' ∧ c ≠ '/' := by
  cases hletters : tag.name with
  | nil => exact absurd hletters htag.name_ne
  | cons c name =>
      have hc := htag.name c (hletters ▸ List.mem_cons_self)
      have hother (d : Char) (hd : isLowerLetter d = false) : c ≠ d := by
        rintro rfl
        rw [hc] at hd
        cases hd
      rw [Tag.text, hletters, List.cons_append, List.cons_append, List.cons_append, Xml.joinLineEnds_cons (by decide),
        Xml.joinLineEnds_cons (hother _ rfl)]
      exact ⟨c, _, rfl, hother _ rfl, hother _ rfl, hother _ rfl⟩

/-- Text and the tag of an element behind it are passed. -/
theorem content_after_tag {text : List Char} {tag : Tag} {closed : Bool} (htext : IsText text) (htag : tag.Plain)
    (h : content expand false outer fuel stack s = .ok (pieces, t)) (hstack : stack ≠ [])
    (hs : s.rest = joinLineEnds (text ++ (tag.text closed ++ z))) :
    ∃ fuel' opened e m more, content expand false outer fuel' (if closed then stack else e :: stack) m = .ok (more, t) ∧
      TagName e.fullName ∧ m.rest = joinLineEnds z ∧
      pieces = readText text ++ .opening opened :: if closed then .closing :: more else more := by
  obtain ⟨fuel₁, m₁, more₁, h₁, hs₁, rfl⟩ := content_after_text h hstack htext (atMarkup_tag tag closed z) hs
  obtain ⟨c, r, hname, hbang, hquestion, hslash⟩ := htag.exists_letter closed z
  obtain ⟨fuel₂, scope, opened, e, closed', m₂, more₂, hstart, hmore, rfl⟩ :=
    content_at_tag h₁ hstack (hs₁.trans hname) hbang hquestion hslash
  obtain ⟨he, rfl, hrest⟩ := startTag_at htag hstart hs₁
  exact ⟨fuel₂, opened, e, m₂, more₂, hmore, he, hrest, rfl⟩

/-- Content of an open element is passed. -/
theorem Content.Plain.reads {c : Content} (hc : c.Plain)
    (h : content expand false outer fuel stack s = .ok (pieces, t)) (hstack : stack ≠ []) (hz : AtMarkup z)
    (hs : s.rest = joinLineEnds (c.written ++ z)) :
    ∃ fuel' m read more, content expand false outer fuel' stack m = .ok (more, t) ∧ m.rest = joinLineEnds z ∧
      pieces = read ++ more ∧ Reads c read := by
  induction c generalizing fuel stack s pieces z with
  | text text =>
      obtain ⟨fuel', m, more, hmore, hrest, hpieces⟩ := content_after_text h hstack hc hz hs
      exact ⟨fuel', m, readText text, more, hmore, hrest, hpieces, .text text⟩
  | pair before tag inside gap after ihInside ihAfter =>
      obtain ⟨hbefore, htag, hinside, hgap, hafter⟩ := hc
      have hwritten : (Content.pair before tag inside gap after).written ++ z =
          before ++ (tag.text false ++ (inside.written ++ (tag.endText gap ++ (after.written ++ z)))) := by
        simp only [written, List.append_assoc]
      rw [hwritten] at hs
      obtain ⟨fuel₁, opened, e, m₁, more₁, h₁, he, hs₁, rfl⟩ := content_after_tag hbefore htag h hstack hs
      obtain ⟨fuel₂, m₂, read, more₂, h₂, hs₂, rfl, hread⟩ :=
        ihInside hinside h₁ (List.cons_ne_nil _ _) (atMarkup_end _ _ _) hs₁
      obtain ⟨fuel₃, m₃, more₃, hclose, h₃, rfl⟩ := content_at_end h₂ (hs₂.trans (joinLineEnds_endText _ _ _))
      have hs₃ := endTag_at htag hgap hclose he hs₂
      obtain ⟨fuel₄, m₄, read', more₄, h₄, hs₄, rfl, hread'⟩ := ihAfter hafter h₃ hstack hz hs₃
      refine ⟨fuel₄, m₄, _, more₄, h₄, hs₄, ?_, .pair before gap opened hread hread'⟩
      simp
  | single before tag after ih =>
      obtain ⟨hbefore, htag, hafter⟩ := hc
      have hwritten : (Content.single before tag after).written ++ z =
          before ++ (tag.text true ++ (after.written ++ z)) := by
        simp only [written, List.append_assoc]
      rw [hwritten] at hs
      obtain ⟨fuel₁, opened, e, m₁, more₁, h₁, -, hs₁, rfl⟩ := content_after_tag hbefore htag h hstack hs
      obtain ⟨fuel₂, m₂, read, more₂, h₂, hs₂, rfl, hread⟩ := ih hafter h₁ hstack hz hs₁
      refine ⟨fuel₂, m₂, _, more₂, h₂, hs₂, ?_, .single before opened hread⟩
      simp

/-- The content without the white space around its element. -/
def Content.bare : Content → Content
  | .pair _ tag inside gap _ => .pair [] tag inside gap (.text [])
  | .single _ tag _ => .single [] tag (.text [])
  | .text s => .text s

/-- The one element is passed. -/
theorem Content.Plain.root_reads {c : Content} (hc : c.Plain) (hdoc : c.IsDocument)
    (h : Xml.Reading.root s = .ok (pieces, t)) (hs : s.rest = joinLineEnds (c.bare.written ++ z)) :
    Reads c.bare pieces ∧ t.rest = joinLineEnds z := by
  unfold Xml.Reading.root at h
  obtain ⟨⟨opened, e, closed⟩, m, hstart, h⟩ := Xml.Reading.bind_eq_ok.mp h
  cases c with
  | text s => exact hdoc.elim
  | pair before tag inside gap after =>
      obtain ⟨-, htag, hinside, hgap, -⟩ := hc
      have hwritten : (Content.pair before tag inside gap after).bare.written ++ z =
          tag.text false ++ (inside.written ++ (tag.endText gap ++ z)) := by
        simp only [bare, written, List.nil_append, List.append_nil, List.append_assoc]
      rw [hwritten] at hs
      obtain ⟨he, rfl, hm⟩ := startTag_at htag hstart hs
      dsimp only at h
      rw [if_neg Bool.false_ne_true, Xml.Reading.bind_docType_apply, Xml.Reading.bind_remaining_apply] at h
      obtain ⟨more, m', hcontent, h⟩ := Xml.Reading.bind_eq_ok.mp h
      obtain ⟨rfl, rfl⟩ := Xml.Reading.pure_eq_ok.mp h
      obtain ⟨fuel₁, m₁, read, more₁, h₁, hs₁, rfl, hread⟩ :=
        hinside.reads hcontent (List.cons_ne_nil _ _) (atMarkup_end _ _ _) hm
      obtain ⟨fuel₂, m₂, more₂, hclose, h₂, rfl⟩ := content_at_end h₁ (hs₁.trans (joinLineEnds_endText _ _ _))
      obtain ⟨rfl, rfl⟩ := content_at_close h₂
      exact ⟨.pair [] gap opened hread (.text []), endTag_at htag hgap hclose he hs₁⟩
  | single before tag after =>
      obtain ⟨-, htag, -⟩ := hc
      have hwritten : (Content.single before tag after).bare.written ++ z = tag.text true ++ z := by
        simp only [bare, written, List.nil_append, List.append_nil]
      rw [hwritten] at hs
      obtain ⟨-, rfl, hm⟩ := startTag_at htag hstart hs
      obtain ⟨rfl, rfl⟩ := Xml.Reading.pure_eq_ok.mp h
      exact ⟨.single [] opened (.text []), hm⟩

theorem Content.Plain.exists_bare {c : Content} (hc : c.Plain) (hdoc : c.IsDocument) :
    ∃ before after, IsSpaces before ∧ IsSpaces after ∧ c.written = before ++ (c.bare.written ++ after) ∧
      ∃ (tag : Tag) (closed : Bool) (z : List Char), tag.Plain ∧ c.bare.written ++ after = tag.text closed ++ z := by
  cases c with
  | text s => exact hdoc.elim
  | pair before tag inside gap after =>
      cases after with
      | text after =>
          obtain ⟨-, htag, -⟩ := hc
          refine ⟨before, after, hdoc.1, hdoc.2, ?_, tag, false, inside.written ++ (tag.endText gap ++ after), htag, ?_⟩
          · simp [bare, written]
          · simp [bare, written]
      | pair => exact hdoc.elim
      | single => exact hdoc.elim
  | single before tag after =>
      cases after with
      | text after =>
          obtain ⟨-, htag, -⟩ := hc
          refine ⟨before, after, hdoc.1, hdoc.2, ?_, tag, true, after, htag, ?_⟩
          · simp [bare, written]
          · simp [bare, written]
      | pair => exact hdoc.elim
      | single => exact hdoc.elim

theorem isSpaces_joinLineEnds {s : List Char} (h : IsSpaces s) : IsSpaces (joinLineEnds s) :=
  fun c hc => h c (Xml.mem_of_mem_joinLineEnds hc)

/-- A document of the common language holds nothing but its element. -/
theorem Content.Plain.document_reads {c : Content} (hc : c.Plain) (hdoc : c.IsDocument)
    (h : Xml.Reading.document s = .ok (pieces, t)) (hs : s.rest = joinLineEnds c.written) : Reads c.bare pieces := by
  obtain ⟨before, after, hbefore, hafter, hwritten, tag, closed, z, htag, hfirst⟩ := hc.exists_bare hdoc
  obtain ⟨d, r, hletter, hbang, hquestion, -⟩ := htag.exists_letter closed z
  have hparts : Xml.Parts before (c.bare.written ++ after) := by
    rw [hfirst]
    exact Xml.parts_of_head (by decide) _ _
  rw [hwritten, Xml.joinLineEnds_append hparts] at hs
  have hspaces := isSpaces_joinLineEnds hbefore
  have hroot : joinLineEnds (c.bare.written ++ after) = '<' :: d :: r := by rw [hfirst, hletter]
  have hundeclared : "<?xml".toList.isPrefixOf s.rest = false := by
    rw [hs, hroot]
    cases hjoined : joinLineEnds before with
    | nil => exact Xml.not_sees_mark hquestion.symm _ _
    | cons b u =>
        refine Xml.not_sees_bracket ?_ _ _
        rintro rfl
        exact absurd (hspaces '<' (hjoined ▸ List.mem_cons_self)) (by decide)
  obtain ⟨-, m, ⟨hdeclared, -⟩ | ⟨-, rfl⟩, hbody⟩ := Xml.Reading.document_iff.mp h
  · rw [Xml.Reading.isDeclared, hundeclared, Bool.and_false] at hdeclared
    cases hdeclared
  · obtain ⟨lead, k, more, k₁, inner, k', behind, hlead, htyped, -, hinner, hbehind, -, rfl⟩ :=
      Xml.Reading.body_iff.mp hbody
    obtain ⟨rfl, hk⟩ := Xml.Reading.allAsides_at hlead hs hspaces (.inr ⟨d, r, hroot, hbang, hquestion⟩)
    have htype : "<!DOCTYPE".toList.isPrefixOf k.rest = false := by
      rw [hk, hroot]
      exact Xml.not_sees_mark hbang.symm _ _
    obtain ⟨hsome, -⟩ | ⟨-, rfl, rfl⟩ := Xml.Reading.typed_iff.mp htyped
    · rw [htype] at hsome
      cases hsome
    obtain ⟨hread, hk'⟩ := hc.root_reads hdoc hinner hk
    have hend : k'.rest = joinLineEnds after ++ [] := by rw [hk', List.append_nil]
    obtain ⟨rfl, -⟩ := Xml.Reading.allAsides_at hbehind hend (isSpaces_joinLineEnds hafter) (.inl rfl)
    rw [List.nil_append, List.append_nil]
    exact hread

end Steps

section Tree

theorem joined_readText (s : List Char) {more : List Piece}
    (hmore : ∀ a, Piece.joined (.text .plain a :: more) = .text .plain a :: Piece.joined more) :
    Piece.joined (readText s ++ more) = readText s ++ Piece.joined more := by
  unfold readText
  split
  · rfl
  · exact hmore _

/-- No two texts stand side by side. -/
theorem Reads.joined {c : Content} {pieces more : List Piece} (h : Reads c pieces)
    (hmore : ∀ a, Piece.joined (.text .plain a :: more) = .text .plain a :: Piece.joined more) :
    Piece.joined (pieces ++ more) = pieces ++ Piece.joined more := by
  induction h generalizing more with
  | text s => exact joined_readText s hmore
  | @pair tag inside after pieces behind before gap t hinside hafter ihInside ihAfter =>
      have hinner : Piece.joined (pieces ++ .closing :: (behind ++ more)) =
          pieces ++ Piece.joined (.closing :: (behind ++ more)) := ihInside fun _ => rfl
      have htag : Piece.joined (readText before ++ .opening t :: (pieces ++ .closing :: (behind ++ more))) =
          readText before ++ Piece.joined (.opening t :: (pieces ++ .closing :: (behind ++ more))) :=
        joined_readText before fun _ => rfl
      simp only [List.append_assoc, List.cons_append, htag, Piece.joined, hinner, ihAfter hmore]
  | @single tag after behind before t hafter ihAfter =>
      have htag : Piece.joined (readText before ++ .opening t :: .closing :: (behind ++ more)) =
          readText before ++ Piece.joined (.opening t :: .closing :: (behind ++ more)) :=
        joined_readText before fun _ => rfl
      simp only [List.append_assoc, List.cons_append, htag, Piece.joined, ihAfter hmore]

theorem foldl_add_stack (nodes : List Node) (tag : Markup.Tag) (content : List Node) (rest : List (Markup.Tag × List Node))
    (top : List Node) :
    nodes.foldl Builder.add { stack := (tag, content) :: rest, top } =
      { stack := (tag, nodes.reverse ++ content) :: rest, top } := by
  induction nodes generalizing content with
  | nil => rfl
  | cons node nodes ih =>
      rw [List.reverse_cons, List.append_assoc]
      exact ih (node :: content)

theorem foldl_add_top (nodes top : List Node) : nodes.foldl Builder.add { top } = { top := nodes.reverse ++ top } := by
  induction nodes generalizing top with
  | nil => rfl
  | cons node nodes ih =>
      rw [List.reverse_cons, List.append_assoc]
      exact ih (node :: top)

theorem exists_texts (s : List Char) :
    ∃ texts, Tells (unified s) texts ∧ ∀ b, (readText s).foldl Builder.step b = texts.foldl Builder.add b := by
  unfold readText
  split
  next hempty =>
    rw [List.isEmpty_iff.mp hempty]
    exact ⟨[], tells_nil, fun b => rfl⟩
  next hne =>
    refine ⟨[.text .plain (unified s)], tells_text _, fun b => ?_⟩
    have hunified : (unified s).isEmpty = false := by simpa [Xml.unified_eq_nil] using hne
    rw [List.foldl_cons, List.foldl_nil, Builder.step, hunified, Bool.and_false, if_neg Bool.false_ne_true]
    rfl

/-- The pieces of some content make nodes that stand for it. -/
theorem Reads.stands {c : Content} {pieces : List Piece} (h : Reads c pieces) :
    ∃ nodes, Stands (fun _ _ => True) (fun s => Tells (unified s)) c nodes ∧
      ∀ b, pieces.foldl Builder.step b = nodes.foldl Builder.add b := by
  induction h with
  | text s =>
      obtain ⟨texts, htells, hfold⟩ := exists_texts s
      exact ⟨texts, .text htells, hfold⟩
  | pair before gap t hinside hafter ihInside ihAfter =>
      obtain ⟨texts, htells, hfold⟩ := exists_texts before
      obtain ⟨children, hchildren, hfoldInside⟩ := ihInside
      obtain ⟨nodes, hnodes, hfoldAfter⟩ := ihAfter
      refine ⟨texts ++ .element t children :: nodes, .pair htells trivial hchildren hnodes, fun b => ?_⟩
      have hclose (b : Builder) : ((children.foldl Builder.add (b.step (.opening t))).step .closing) =
          b.add (.element t children) := by
        rw [Builder.step, foldl_add_stack, Builder.step, List.append_nil]
        dsimp only
        rw [List.reverse_reverse]
      rw [List.foldl_append, hfold, List.foldl_cons, List.foldl_append, hfoldInside, List.foldl_cons, hclose, hfoldAfter,
        List.foldl_append]
      rfl
  | single before t hafter ihAfter =>
      obtain ⟨texts, htells, hfold⟩ := exists_texts before
      obtain ⟨nodes, hnodes, hfoldAfter⟩ := ihAfter
      refine ⟨texts ++ .element t [] :: nodes, .single htells trivial hnodes, fun b => ?_⟩
      rw [List.foldl_append, hfold, List.foldl_cons, List.foldl_cons, hfoldAfter, List.foldl_append]
      rfl

/-- The tree of a document of the common language that is read stands for it. -/
theorem Content.Plain.stands_of_read {c : Content} (hc : c.Plain) (hdoc : c.IsDocument) {contents : Contents}
    (h : Xml.read c.written = .ok contents) :
    Stands (fun _ _ => True) (fun s => Tells (unified s)) c.bare contents.tree := by
  have hmark : Xml.withoutMark c.written = c.written := by
    obtain ⟨before, after, hbefore, -, hwritten, tag, closed, z, -, hfirst⟩ := hc.exists_bare hdoc
    rw [hwritten, hfirst]
    cases before with
    | nil => rfl
    | cons b before =>
        refine if_neg fun hmark => ?_
        have hspace := hbefore b List.mem_cons_self
        simp only [Xml.isSpace, Bool.or_eq_true, beq_iff_eq] at hspace
        obtain ((rfl | rfl) | rfl) | rfl := hspace <;> exact absurd hmark (by decide)
  obtain ⟨s, hdocument⟩ : ∃ s, Xml.Reading.document.run { rest := joinLineEnds c.written } = .ok (contents.pieces, s) := by
    unfold Xml.read at h
    rw [hmark] at h
    split at h
    next => cases h
    next pieces s hdocument =>
      refine ⟨s, hdocument.trans ?_⟩
      dsimp only at h
      split at h
      next => cases h; rfl
      next =>
        split at h
        next => cases h
        next => cases h; rfl
  have hread := hc.document_reads hdoc hdocument rfl
  obtain ⟨nodes, hnodes, hfold⟩ := hread.stands
  have hjoined : Piece.joined (contents.pieces ++ []) = contents.pieces ++ [] := hread.joined fun _ => rfl
  rw [List.append_nil] at hjoined
  have htree : contents.tree = nodes := by
    rw [Contents.tree, hjoined, Xml.treeOf, hfold, foldl_add_top, List.append_nil, List.reverse_reverse]
  rw [htree]
  exact hnodes

end Tree

end MarkupIds.Common
