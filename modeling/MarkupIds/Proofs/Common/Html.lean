import MarkupIds.Proofs.Common.Language
import MarkupIds.Proofs.Html.Elements

/-! A document of the common language read as HTML: its start tags are written plainly, and the tree stands for it. -/

namespace MarkupIds.Common

open MarkupIds.Html (Builder Construct FirstPass MadeOf NoTags Piece WrittenAttribute WrittenTag WrittenValue)
open MarkupIds.Markup (Node)
open MarkupIds.Text (Position isBlank)

def Attribute.html (a : Attribute) : WrittenAttribute :=
  ⟨a.lead, a.name, some ⟨a.before, a.behind, some '"', a.value⟩⟩

def Tag.html (t : Tag) (closed : Bool) : WrittenTag := ⟨t.name, t.attributes.map Attribute.html, t.blanks, closed⟩

theorem isTagChar_of_isLowerLetter {c : Char} (h : isLowerLetter c = true) : Html.isTagChar c = true :=
  of_isLowerLetter (P := fun c => Html.isTagChar c = true) (by decide +kernel) h

theorem isAttributeChar_of_isAttrChar {c : Char} (h : isAttrChar c = true) : Html.StartTag.isAttributeChar c = true := by
  simp only [isAttrChar, Html.StartTag.isAttributeChar, Bool.not_eq_true', Bool.or_eq_false_iff] at h ⊢
  tauto

theorem IsSpaces.head?_isNameChar {s : List Char} (h : IsSpaces s) : s.head?.any Html.isNameChar = false := by
  cases s with
  | nil => rfl
  | cons c s =>
      have hc := h c List.mem_cons_self
      simp only [Xml.isSpace, Bool.or_eq_true, beq_iff_eq] at hc
      obtain ((rfl | rfl) | rfl) | rfl := hc <;> rfl

theorem Attribute.Plain.html {a : Attribute} (ha : a.Plain) : a.html.Plain where
  lead_ne := ha.lead_ne
  lead := ha.lead.all_isBlank
  name_ne h := by
    have hname := ha.name
    rw [isAttrName, show a.name = [] from h] at hname
    cases hname
  name := List.all_eq_true.mpr fun c hc => isAttributeChar_of_isAttrChar
    (List.all_eq_true.mp (Bool.and_eq_true_iff.mp ha.name).2 c hc)
  value := by
    rintro v ⟨⟩
    refine ⟨ha.before.all_isBlank, ha.behind.all_isBlank, ?_, fun h => by cases h⟩
    rintro q ⟨⟩
    exact ⟨.inl rfl, ha.value⟩

namespace Tag

variable {t : Tag}

theorem text_html (t : Tag) (closed : Bool) : (t.html closed).text = t.text closed := by
  have hattributes : t.attributes.flatMap (fun a => a.html.text) = t.attributes.flatMap Attribute.text := rfl
  simp only [WrittenTag.text, WrittenTag.parts, Html.StartTag.text, html, text, List.flatMap_map, hattributes,
    Html.closing, List.append_assoc]
  rfl

theorem Plain.html (ht : t.Plain) (closed : Bool) : (t.html closed).Plain where
  letter := by
    cases hname : t.name with
    | nil => exact absurd hname ht.name_ne
    | cons c name =>
        simp only [Tag.html, hname, List.head?_cons, Option.any_some]
        exact isLetter_of_isLowerLetter (ht.name c (hname ▸ List.mem_cons_self))
  name := List.all_eq_true.mpr fun c hc => isTagChar_of_isLowerLetter (ht.name c hc)
  items a ha := by
    obtain ⟨b, hb, rfl⟩ := List.mem_map.mp ha
    exact (ht.attributes b hb).html
  blanks := ht.blanks.all_isBlank
  gaps a ha := by
    obtain ⟨b, hb, rfl⟩ := List.mem_map.mp ha
    exact (ht.attributes b hb).lead.head?_isNameChar
  gap := ht.blanks.head?_isNameChar
  last _ _ a ha := by
    obtain ⟨b, -, rfl⟩ := List.mem_map.mp (List.mem_of_getLast? ha)
    rfl

theorem Plain.readable_html (ht : t.Plain) (closed : Bool) : (t.html closed).Readable := by
  intro a ha
  obtain ⟨b, hb, rfl⟩ := List.mem_map.mp ha
  exact (ht.attributes b hb).readable

/-- The piece of an end tag. -/
def endPiece (t : Tag) (gap : List Char) : Piece := .other (t.endText gap) [.closing (String.ofList t.name)]

end Tag

/-- The piece of a text, if there is any. -/
def textPieces (s : List Char) : List Piece := if s.isEmpty then [] else [.other s [.text s]]

/-- The pieces of some content. -/
def Content.pieces : Content → List Piece
  | .text s => textPieces s
  | .pair before tag inside gap after =>
    textPieces before ++ .tag (tag.html false) :: (inside.pieces ++ tag.endPiece gap :: after.pieces)
  | .single before tag after => textPieces before ++ .tag (tag.html true) :: after.pieces

section Pass

variable {z rest : List Char} {cs : List Construct}

theorem startsTag_of_isText {s : List Char} (hne : s ≠ []) (hs : IsText s) (z : List Char) :
    Html.startsTag (s ++ z) = false := by
  cases s with
  | nil => exact absurd rfl hne
  | cons c s =>
      have hc : c ≠ '<' := fun h => hs.1 (h ▸ List.mem_cons_self)
      simp [Html.startsTag, hc]

theorem findingAt_text {s : List Char} (hne : s ≠ []) (hs : IsText s) (hz : AtMarkup z) :
    Html.findingAt false none (s ++ z) = .goOn [.text s] s.length := by
  have hrun : (s ++ z).takeWhile (fun c => !(c == '<' || c == '&')) = s := by
    rw [Text.takeWhile_append_of_head fun c hc => by rw [hz c hc]; rfl, List.takeWhile_eq_self_iff]
    intro c hc
    have hopen : c ≠ '<' := fun h => hs.1 (h ▸ hc)
    have hand : c ≠ '&' := fun h => hs.2 (h ▸ hc)
    simp [hopen, hand]
  cases s with
  | nil => exact absurd rfl hne
  | cons c s =>
      have hopen : c ≠ '<' := fun h => hs.1 (h ▸ List.mem_cons_self)
      have hand : c ≠ '&' := fun h => hs.2 (h ▸ List.mem_cons_self)
      rw [Html.findingAt, Html.inContent.eq_def]
      split
      next heq => cases heq
      next heq => exact absurd (List.cons.inj heq).1 hopen
      next heq => exact absurd (List.cons.inj heq).1 hand
      next => rw [hrun]

/-- The first pass goes through a text in one step. -/
theorem firstPass_text {s : List Char} (hs : IsText s) (hz : AtMarkup z) (h : FirstPass none z cs none rest) :
    FirstPass none (s ++ z) ((textPieces s).map Piece.construct ++ cs) none rest := by
  unfold textPieces
  cases hempty : s.isEmpty with
  | true =>
      rw [List.isEmpty_iff.mp hempty]
      exact h
  | false =>
      have hne : s ≠ [] := by simpa using hempty
      refine FirstPass.step (c := (Piece.other s [.text s]).construct) (findingAt_text hne hs hz) ?_ h
      exact (startsTag_of_isText hne hs z).symm

theorem firstPass_tag {t : Tag} (ht : t.Plain) (closed : Bool) (h : FirstPass none z cs none rest) :
    FirstPass none (t.text closed ++ z) ((Piece.tag (t.html closed)).construct :: cs) none rest := by
  have hplain := ht.html closed
  have hstarts := Html.startsTag_append_of_startsTag (Html.WrittenTag.startsTag_text hplain) z
  rw [← t.text_html]
  refine FirstPass.step (c := (Piece.tag (t.html closed)).construct)
    (Html.findingAt_startTag false hstarts (hplain.readOpening_eq (ht.readable_html closed) z)) ?_ ?_
  · exact (congrArg (true && ·) hstarts).symm
  · have hraw : Html.isRaw (String.ofList (Text.lower t.name)) = false := by
      rw [ht.lower_name]
      exact ht.cooked
    have hnone : Html.rawAfter none (Piece.tag (t.html closed)).construct.tokens = none := by
      simp only [Piece.construct, WrittenTag.token, Tag.html, Html.rawAfter, hraw, Bool.and_false]
      rfl
    rw [hnone]
    exact h

theorem plainClosing?_endText {t : Tag} (ht : t.Plain) {gap : List Char} (hgap : IsSpaces gap) (z : List Char) :
    Html.plainClosing? (t.endText gap ++ z) = some (t.name, z) := by
  have hdrop : (t.endText gap ++ z).drop 2 = t.name ++ (gap ++ '>' :: z) := by simp [Tag.endText]
  have hgapDrop : (gap ++ '>' :: z).dropWhile isBlank = '>' :: z := by
    rw [List.dropWhile_append_of_pos fun c hc => isBlank_of_isSpace (hgap c hc), List.dropWhile_cons_of_neg (by decide)]
  have hend {p : Char → Bool} (hp : ∀ c, Xml.isSpace c = true → p c = false) (hclose : p '>' = false) :
      ∀ c, (gap ++ '>' :: z).head? = some c → p c = false := by
    intro c hc
    cases gap with
    | nil => exact Option.some.inj hc ▸ hclose
    | cons d gap => exact Option.some.inj hc ▸ hp d (hgap d List.mem_cons_self)
  unfold Html.plainClosing?
  rw [hdrop]
  cases hname : t.name with
  | nil => exact absurd hname ht.name_ne
  | cons c name =>
      have hletters : ∀ d ∈ c :: name, isLowerLetter d = true := hname ▸ ht.name
      obtain ⟨hc, hrest⟩ := List.forall_mem_cons.mp hletters
      have hletter := isLetter_of_isLowerLetter hc
      have hblank : isBlank c = false := of_isLowerLetter (P := fun c => isBlank c = false) (by decide +kernel) hc
      rw [List.cons_append, List.dropWhile_cons_of_neg (by rw [hblank]; exact Bool.false_ne_true)]
      have hrun : ∀ d ∈ name, (Text.isLetter d || Text.isDigit d || d == '-' || d == '.' || d == ':' || d == '_') = true :=
        fun d hd => by simp [isLetter_of_isLowerLetter (hrest d hd)]
      have hspan := Text.span_append (s := gap ++ '>' :: z) hrun (hend (fun d hd => by
        simp only [Xml.isSpace, Bool.or_eq_true, beq_iff_eq] at hd
        obtain ((rfl | rfl) | rfl) | rfl := hd <;> decide) (by decide))
      simp only [hletter, if_true, hspan, hgapDrop]

theorem readClosing_endText {t : Tag} (ht : t.Plain) {gap : List Char} (hgap : IsSpaces gap) (z : List Char) :
    Html.readClosing (t.endText gap ++ z) = .read [.closing (String.ofList t.name)] (t.endText gap).length := by
  have hcut : Text.cutAt ['>'] ((t.endText gap ++ z).drop 1) = some ('/' :: (t.name ++ gap), z) := by
    rw [Text.cutAt_singleton_iff]
    refine ⟨by simp [Tag.endText], ?_⟩
    simp only [List.mem_cons, List.mem_append, not_or]
    refine ⟨by decide, fun hmem => ?_, fun hmem => absurd (hgap _ hmem) (by decide)⟩
    exact absurd (ht.name _ hmem) (by decide)
  unfold Html.readClosing
  simp only [hcut, plainClosing?_endText ht hgap z, ht.lower_name]
  rw [List.length_append, Nat.add_sub_cancel]

theorem firstPass_end {t : Tag} (ht : t.Plain) {gap : List Char} (hgap : IsSpaces gap)
    (h : FirstPass none z cs none rest) :
    FirstPass none (t.endText gap ++ z) ((t.endPiece gap).construct :: cs) none rest := by
  refine FirstPass.step (c := (t.endPiece gap).construct) ?_ rfl h
  have hbracket : Html.readMarkup (t.endText gap ++ z) = Html.readClosing (t.endText gap ++ z) := rfl
  have hfound : Html.findingAt false none (t.endText gap ++ z) = Html.atBracket false (t.endText gap ++ z) := rfl
  exact hfound.trans (by rw [Html.atBracket, hbracket, readClosing_endText ht hgap z]; rfl)

/-- The first pass goes through content piece by piece. -/
theorem Content.Plain.firstPass {c : Content} (hc : c.Plain) (hz : AtMarkup z) (h : FirstPass none z cs none rest) :
    FirstPass none (c.written ++ z) (c.pieces.map Piece.construct ++ cs) none rest := by
  induction c generalizing z cs with
  | text s => exact firstPass_text hc hz h
  | pair before tag inside gap after ihInside ihAfter =>
      obtain ⟨hbefore, htag, hinside, hgap, hafter⟩ := hc
      have hend := firstPass_end htag hgap (ihAfter hafter hz h)
      have hall := firstPass_text hbefore (atMarkup_tag _ _ _)
        (firstPass_tag htag false (ihInside hinside (atMarkup_end _ _ _) hend))
      simpa only [written, pieces, List.append_assoc, List.map_append, List.map_cons, List.cons_append] using hall
  | single before tag after ih =>
      obtain ⟨hbefore, htag, hafter⟩ := hc
      have hall := firstPass_text hbefore (atMarkup_tag _ _ _) (firstPass_tag htag true (ih hafter hz h))
      simpa only [written, pieces, List.append_assoc, List.map_append, List.map_cons, List.cons_append] using hall

theorem fit_textPieces (s : List Char) : ∀ piece ∈ textPieces s, piece.Fit := by
  unfold textPieces
  split
  · exact List.forall_mem_nil _
  · exact List.forall_mem_singleton.mpr (Html.noTags_single rfl)

theorem Content.Plain.fit {c : Content} (hc : c.Plain) : ∀ piece ∈ c.pieces, piece.Fit := by
  induction c with
  | text s => exact fit_textPieces s
  | pair before tag inside gap after ihInside ihAfter =>
      obtain ⟨-, htag, hinside, -, hafter⟩ := hc
      exact List.forall_mem_append.mpr ⟨fit_textPieces before, List.forall_mem_cons.mpr
        ⟨⟨htag.html false, htag.readable_html false⟩,
          List.forall_mem_append.mpr ⟨ihInside hinside, List.forall_mem_cons.mpr
            ⟨Html.noTags_single rfl, ihAfter hafter⟩⟩⟩⟩
  | single before tag after ih =>
      obtain ⟨-, htag, hafter⟩ := hc
      exact List.forall_mem_append.mpr ⟨fit_textPieces before, List.forall_mem_cons.mpr
        ⟨⟨htag.html true, htag.readable_html true⟩, ih hafter⟩⟩

theorem Content.Plain.madeOf {c : Content} (hc : c.Plain) : MadeOf c.written c.pieces none [] := by
  have hpass := hc.firstPass atMarkup_nil (.done none [])
  rw [List.append_nil, List.append_nil] at hpass
  refine ⟨hpass, hc.fit, fun u hu => ?_⟩
  rw [List.suffix_nil.mp hu]
  rfl

end Pass

section Tree

/-- The tag of an element is the one that is written. -/
def HtmlTag (t : Markup.Tag) (tag : Tag) : Prop := ∃ closed p, t = (tag.html closed).tagAt p

/-- More content in the innermost open element. -/
def addAll (b : Builder) (nodes : List Node) : Builder := nodes.foldl Builder.add b

variable {b : Builder}

theorem pending_add (b : Builder) (node : Node) : (b.add node).pending = b.pending ∧ (b.add node).settled = b.settled := by
  obtain ⟨stack, top, pending, settled⟩ := b
  cases stack <;> exact ⟨rfl, rfl⟩

theorem pending_addAll (b : Builder) (nodes : List Node) :
    (addAll b nodes).pending = b.pending ∧ (addAll b nodes).settled = b.settled := by
  induction nodes generalizing b with
  | nil => exact ⟨rfl, rfl⟩
  | cons node nodes ih =>
      obtain ⟨hpending, hsettled⟩ := pending_add b node
      obtain ⟨hpending', hsettled'⟩ := ih (b.add node)
      exact ⟨hpending'.trans hpending, hsettled'.trans hsettled⟩

/-- What is added inside a newly opened element is its content. -/
theorem addAll_push (b : Builder) (t : Markup.Tag) (nodes : List Node) :
    addAll (b.push t) nodes = { b with stack := ⟨t, nodes.reverse⟩ :: b.stack } := by
  suffices ∀ content, addAll { b with stack := ⟨t, content⟩ :: b.stack } nodes =
      { b with stack := ⟨t, nodes.reverse ++ content⟩ :: b.stack } by
    have hempty := this []
    rw [List.append_nil] at hempty
    exact hempty
  induction nodes with
  | nil => exact fun _ => rfl
  | cons node nodes ih =>
      intro content
      rw [List.reverse_cons, List.append_assoc]
      exact ih (node :: content)

theorem isBlank_of_isPlainSpace {c : Char} (h : Builder.isPlainSpace c = true) : isBlank c = true := by
  simp only [Builder.isPlainSpace, Bool.or_eq_true, beq_iff_eq] at h
  obtain (((rfl | rfl) | rfl) | h) | rfl := h
  · decide
  · decide
  · decide
  · simp [isBlank, h]
  · decide

theorem trimmed_of_blank {s : List Char} (h : ∀ c ∈ s, isBlank c = true) : trimmed [s] = [] := by
  have htrim : Text.trim s = [] := by
    rw [Text.trim, Text.trimStart, List.dropWhile_eq_nil_iff.mpr h]
    rfl
  rw [trimmed, List.map_singleton, htrim]
  rfl

/-- A text that is kept, or collapsed if it is blank, tells what it told. -/
theorem tells_collapsed (s : List Char) : Tells s [.text .plain (Builder.collapsed s)] := by
  refine ⟨List.forall_mem_singleton.mpr rfl, ?_⟩
  change trimmed [Builder.collapsed s] = trimmed [s]
  unfold Builder.collapsed
  split
  next hall =>
    rw [trimmed_of_blank fun c hc => isBlank_of_isPlainSpace (List.all_eq_true.mp hall c hc)]
    split <;> exact trimmed_of_blank (List.forall_mem_singleton.mpr rfl)
  next => rfl

theorem exists_flush (hpending : b.pending = []) (s : List Char) :
    ∃ nodes, Tells s nodes ∧ ({ b with pending := s } : Builder).flush = addAll b nodes := by
  obtain ⟨stack, top, pending, settled⟩ := b
  obtain rfl : pending = [] := hpending
  unfold Builder.flush
  dsimp only
  split
  next hempty =>
    rw [List.isEmpty_iff.mp hempty]
    exact ⟨[], tells_nil, rfl⟩
  next =>
    have hadd (content : List Char) : ({ (Builder.mk stack top s settled).add (.text .plain content) with pending := [] } :
        Builder) = addAll ⟨stack, top, [], settled⟩ [.text .plain content] := by
      cases stack <;> rfl
    rw [hadd]
    refine ⟨_, ?_, rfl⟩
    split
    · exact tells_text s
    · exact tells_collapsed s

/-- The builder after some pieces, the first of which stands at `p`. -/
def built (p : Position) (pieces : List Piece) (b : Builder) : Builder :=
  (Construct.placed p (pieces.map Piece.construct)).foldl (fun b t => b.step t.1 t.2) b

theorem built_cons (p : Position) (piece : Piece) (pieces : List Piece) (b : Builder) :
    built p (piece :: pieces) b =
      built (p.advance piece.text) pieces (piece.construct.tokens.foldl (fun b token => b.step p token) b) := by
  rw [built, List.map_cons, Construct.placed, List.foldl_append, List.foldl_map]
  rfl

theorem exists_built_append (p : Position) (pieces more : List Piece) (b : Builder) :
    ∃ q, built p (pieces ++ more) b = built q more (built p pieces b) := by
  induction pieces generalizing p b with
  | nil => exact ⟨p, rfl⟩
  | cons piece pieces ih =>
      rw [List.cons_append, built_cons, built_cons]
      exact ih _ _

theorem built_textPieces (p : Position) (hpending : b.pending = []) (s : List Char) :
    built p (textPieces s) b = { b with pending := s } := by
  unfold textPieces
  split
  next hempty =>
    rw [List.isEmpty_iff.mp hempty, ← hpending]
    rfl
  next =>
    rw [built_cons]
    change ({ b with pending := b.pending ++ s } : Builder) = _
    rw [hpending]
    rfl

theorem flush_of_pending (hpending : b.pending = []) : b.flush = b := by
  rw [Builder.flush, hpending]
  rfl

/-- An end tag closes the innermost element if it has its name. -/
theorem close_innermost (hsettled : b.settled = []) {tag : Markup.Tag} {content : List Node} {rest : List Html.OpenElement}
    (hstack : b.flush.stack = ⟨tag, content⟩ :: rest) :
    b.close tag.name = { b.flush with stack := rest }.add (.element tag content.reverse) := by
  have hnone : b.settled.contains tag.name = false := by
    rw [hsettled]
    rfl
  have hfirst : b.flush.stack.findIdx? (fun e => e.tag.name == tag.name) = some 0 := by
    rw [hstack, List.findIdx?_cons, beq_self_eq_true]
    rfl
  rw [Builder.close, hnone, if_neg Bool.false_ne_true, Builder.closeNearest]
  simp only [hfirst, Builder.popMany]
  rw [Builder.pop, hstack]

theorem step_end (hsettled : b.settled = []) {outer : Builder} {children : List Node} {tag : Markup.Tag} (p : Position)
    (hflush : b.flush = addAll (outer.push tag) children) :
    b.step p (.closing tag.name) = outer.add (.element tag children) := by
  rw [addAll_push] at hflush
  have hstack : b.flush.stack = ⟨tag, children.reverse⟩ :: outer.stack := by rw [hflush]
  have hclose := close_innermost hsettled hstack
  rw [hflush, List.reverse_reverse] at hclose
  exact hclose

theorem step_tag {t : Tag} (ht : t.Plain) (hpending : b.flush.pending = []) (hsettled : b.flush.settled = []) (closed : Bool)
    (p : Position) :
    b.step p (t.html closed).token =
      if closed then b.flush.add (.element ((t.html closed).tagAt p) []) else b.flush.push ((t.html closed).tagAt p) := by
  have hopen : b.step p (t.html closed).token =
      if closed then (b.flush.push ((t.html closed).tagAt p)).close ((t.html closed).tagAt p).name
      else if Html.voidElements.contains ((t.html closed).tagAt p).name then
        { (b.flush.push ((t.html closed).tagAt p)).closeNearest ((t.html closed).tagAt p).name with
          settled := (b.flush.push ((t.html closed).tagAt p)).settled ++ [((t.html closed).tagAt p).name] }
      else b.flush.push ((t.html closed).tagAt p) := rfl
  have hname : ((t.html closed).tagAt p).name = String.ofList t.name := congrArg String.ofList ht.lower_name
  rw [hopen]
  cases closed with
  | true =>
      have hflush : (b.flush.push ((t.html true).tagAt p)).flush = b.flush.push ((t.html true).tagAt p) :=
        flush_of_pending hpending
      have hstack : (b.flush.push ((t.html true).tagAt p)).flush.stack =
          ⟨(t.html true).tagAt p, []⟩ :: b.flush.stack := by
        rw [hflush]
        rfl
      have hpushed : (b.flush.push ((t.html true).tagAt p)).settled = [] := hsettled
      have hclose := close_innermost hpushed hstack
      rw [hflush] at hclose
      exact hclose
  | false =>
      have hvoid : Html.voidElements.contains ((t.html false).tagAt p).name = false := by
        rw [hname]
        simpa using ht.content
      rw [if_neg Bool.false_ne_true, hvoid]
      rfl

theorem addAll_append (b : Builder) (nodes more : List Node) : addAll b (nodes ++ more) = addAll (addAll b nodes) more :=
  List.foldl_append

/-- Text and a start tag behind it. -/
theorem exists_built_tag {tag : Tag} (htag : tag.Plain) (hpending : b.pending = []) (hsettled : b.settled = [])
    (before : List Char) (closed : Bool) (more : List Piece) (p : Position) :
    ∃ texts q q', Tells before texts ∧ built p (textPieces before ++ .tag (tag.html closed) :: more) b =
      built q' more (if closed then (addAll b texts).add (.element ((tag.html closed).tagAt q) [])
        else (addAll b texts).push ((tag.html closed).tagAt q)) := by
  obtain ⟨texts, htells, hflush⟩ := exists_flush hpending before
  obtain ⟨hpending', hsettled'⟩ := pending_addAll b texts
  obtain ⟨q, hq⟩ := exists_built_append p (textPieces before) (.tag (tag.html closed) :: more) b
  have hopen := step_tag (b := { b with pending := before }) htag (by rw [hflush, hpending', hpending])
    (by rw [hflush, hsettled', hsettled]) closed q
  rw [hflush] at hopen
  refine ⟨texts, q, q.advance (Piece.tag (tag.html closed)).text, htells, ?_⟩
  rw [hq, built_textPieces p hpending before, built_cons, ← hopen]
  rfl

/-- The builder makes of the tokens of some content nodes that stand for it. -/
theorem Content.Plain.built {c : Content} (hc : c.Plain) {b : Builder} (hpending : b.pending = []) (hsettled : b.settled = [])
    (p : Position) :
    ∃ nodes, Stands HtmlTag (fun s => Tells s) c nodes ∧ (Common.built p c.pieces b).flush = addAll b nodes ∧
      (Common.built p c.pieces b).settled = [] := by
  induction c generalizing b p with
  | text s =>
      obtain ⟨nodes, htells, hflush⟩ := exists_flush hpending s
      rw [pieces, built_textPieces p hpending s]
      exact ⟨nodes, .text htells, hflush, hsettled⟩
  | pair before tag inside gap after ihInside ihAfter =>
      obtain ⟨-, htag, hinside, -, hafter⟩ := hc
      obtain ⟨texts, q, q', htells, hopen⟩ := exists_built_tag htag hpending hsettled before false
        (inside.pieces ++ tag.endPiece gap :: after.pieces) p
      obtain ⟨hpending₁, hsettled₁⟩ := pending_addAll b texts
      obtain ⟨children, hchildren, hflushInside, hsettledInside⟩ := ihInside hinside
        (b := (addAll b texts).push ((tag.html false).tagAt q)) (hpending₁.trans hpending) (hsettled₁.trans hsettled) q'
      obtain ⟨r, hr⟩ := exists_built_append q' inside.pieces (tag.endPiece gap :: after.pieces)
        ((addAll b texts).push ((tag.html false).tagAt q))
      have hclose := step_end hsettledInside r hflushInside
      have hname : ((tag.html false).tagAt q).name = String.ofList tag.name := congrArg String.ofList htag.lower_name
      rw [hname] at hclose
      obtain ⟨hpending₂, hsettled₂⟩ := pending_add (addAll b texts) (.element ((tag.html false).tagAt q) children)
      obtain ⟨nodes, hnodes, hflushAfter, hsettledAfter⟩ := ihAfter hafter
        (b := (addAll b texts).add (.element ((tag.html false).tagAt q) children))
        (hpending₂.trans (hpending₁.trans hpending)) (hsettled₂.trans (hsettled₁.trans hsettled))
        (r.advance (tag.endPiece gap).text)
      have hall : Common.built p (Content.pair before tag inside gap after).pieces b =
          Common.built (r.advance (tag.endPiece gap).text) after.pieces
            ((addAll b texts).add (.element ((tag.html false).tagAt q) children)) := by
        rw [pieces, hopen, if_neg Bool.false_ne_true, hr, built_cons, ← hclose]
        rfl
      rw [hall]
      refine ⟨_, .pair htells ⟨false, q, rfl⟩ hchildren hnodes, ?_, hsettledAfter⟩
      rw [hflushAfter, addAll_append]
      rfl
  | single before tag after ih =>
      obtain ⟨-, htag, hafter⟩ := hc
      obtain ⟨texts, q, q', htells, hopen⟩ := exists_built_tag htag hpending hsettled before true after.pieces p
      obtain ⟨hpending₁, hsettled₁⟩ := pending_addAll b texts
      obtain ⟨hpending₂, hsettled₂⟩ := pending_add (addAll b texts) (.element ((tag.html true).tagAt q) [])
      obtain ⟨nodes, hnodes, hflushAfter, hsettledAfter⟩ := ih hafter
        (b := (addAll b texts).add (.element ((tag.html true).tagAt q) []))
        (hpending₂.trans (hpending₁.trans hpending)) (hsettled₂.trans (hsettled₁.trans hsettled)) q'
      rw [pieces, hopen, if_pos rfl]
      refine ⟨_, .single htells ⟨true, q, rfl⟩ hnodes, ?_, hsettledAfter⟩
      rw [hflushAfter, addAll_append]
      rfl

/-- A document of the common language is read as HTML, and its tree stands for it. -/
theorem Content.Plain.exists_parse {c : Content} (hc : c.Plain) :
    ∃ nodes, Html.parse c.written = .ok nodes ∧ Stands HtmlTag (fun s => Tells s) c nodes := by
  obtain ⟨fuel, hfuel, hscan⟩ := hc.madeOf.scan_eq
  obtain ⟨nodes, hnodes, hflush, hsettled⟩ := hc.built (b := {}) rfl rfl Position.start
  have hend : Html.scanFrom fuel false none (Position.start.advance (Piece.textOf c.pieces)) [] = .ok [] := by
    match fuel, hfuel with
    | fuel + 2, _ => rfl
  rw [hend] at hscan
  have htop (nodes : List Node) : addAll {} nodes = { top := nodes.reverse } := by
    suffices ∀ top, addAll { top := top } nodes = { top := nodes.reverse ++ top } by simpa using this []
    induction nodes with
    | nil => exact fun _ => rfl
    | cons node nodes ih =>
        intro top
        rw [List.reverse_cons, List.append_assoc]
        exact ih (node :: top)
  refine ⟨nodes, ?_, hnodes⟩
  rw [Html.parse, hscan]
  change Except.ok (Html.treeOf (_ ++ [])) = _
  rw [List.append_nil, Html.treeOf]
  change Except.ok (Builder.finish (Common.built Position.start c.pieces {})) = _
  rw [Builder.finish, hflush, htop]
  exact congrArg Except.ok (List.reverse_reverse nodes)

end Tree

end MarkupIds.Common
