import MarkupIds.Proofs.Jsx.Names
import MarkupIds.Proofs.Jsx.Sight

/-! Start tags that are read as they are written. -/

namespace MarkupIds
namespace Jsx

open Grammar (Pattern Reached Answers)

section Tags

open Piece

/-- The pattern of what an attribute is made of. -/
def attributeParts : Part :=
  match tagAttribute with
  | .branch _ a => a
  | a => a

/-- The pattern of an expression with its braces. -/
def bracedParts : Part :=
  match expressionInBraces with
  | .seq _ (.branch _ a) => a
  | a => a

/-- The pattern reads a text to its end, whatever follows it, and finds trees with a property. -/
def IsReadBy (a : Part) (s : List Char) (p : List (Grammar.Tree Kind) → Prop) : Prop :=
  ∀ {x : Reached Kind} {rest : List Char}, x.rest = s ++ rest → x.found = [] → ∃ parts flag, p parts ∧
    Answers grammar a x (some { offset := x.offset + s.length, rest, found := parts.reverse, flag })

/-- It is enough to read the text in outline. -/
theorem isReadBy_of_look {a : Part} {s : List Char} {p : List (Grammar.Tree Kind) → Prop} {fuel : Nat} {t : Sight}
    (ha : Known a) (hlook : Outline.look false fuel a { rest := s.map .char, flag := none } = some (some t))
    (ht : t.rest = []) (hp : ∀ parts, allFaded parts = t.found.reverse → p parts) : IsReadBy a s p := by
  intro x rest hx hfound
  have hs : Stands rest { rest := s.map .char, flag := none } x (s.map .char) := by
    refine ⟨?_, ?_, ?_, nofun, ?_⟩
    · simp [mark]
    · rw [hx, textOf_chars]
    · rw [hfound]
      rfl
    · intro w hw
      obtain ⟨c, -, hc⟩ := List.mem_map.mp hw
      cases hc
  obtain ⟨taken, left, y, hpieces, hy, hstands, hoffset, found, hy', -⟩ :=
    follows_of_look (fun h : false = true => absurd h Bool.false_ne_true) ha hlook hs
  obtain rfl : left = [] := List.map_eq_nil_iff.mp (hstands.marks.symm.trans ht)
  rw [List.append_nil] at hpieces
  subst hpieces
  rw [textOf_chars] at hoffset
  refine ⟨y.found.reverse, y.flag, hp _ ?_, ?_⟩
  · rw [allFaded_reverse, hstands.found]
  · rw [List.reverse_reverse, ← hoffset]
    have hrest : y.rest = rest := hstands.text
    rw [← hrest]
    exact hy

/-- The part of a start tag is read as it is written, whatever follows it, and there are no elements inside. -/
def WrittenPart.IsReadable : WrittenPart → Prop
  | bare _ name => IsAttributeName name
  | valued _ body name literal => (∃ c s, body = c :: s ∧ isNameStart c = true) ∧ IsReadBy attributeParts body
      fun parts => nameIn parts = some name ∧ (stringIn parts).map (·.flatMap writtenText) = literal ∧
        elementTags parts = []
  | spread _ code => (∃ s, code = '\x7b' :: s) ∧ IsReadBy bracedParts code fun parts => elementTags parts = []

/-- A part that is read as it is written, behind white space. Its first word may not go on with type parameters. -/
structure WrittenPart.IsPlain (p : WrittenPart) : Prop where
  gap_ne : p.gap ≠ []
  gap : ∀ c ∈ p.gap, isSpace c = true
  word : p.body.takeWhile isNameChar ≠ "extends".toList
  readable : p.IsReadable

theorem WrittenPart.IsPlain.text_ne_nil {p : WrittenPart} (h : p.IsPlain) : p.text ≠ [] :=
  List.append_ne_nil_of_left_ne_nil h.gap_ne _

/-- A start tag that is read as it is written. Its first word may not be one that type parameters start with. -/
structure WrittenTag.IsPlain (w : WrittenTag) : Prop where
  name : IsElementName w.name
  word : w.name.takeWhile isNameChar ∉ ["const".toList, "in".toList, "out".toList]
  parts : ∀ p ∈ w.parts, p.IsPlain

/-- What a part of a start tag, or its end, starts with. -/
def startsPart (c : Char) : Bool := c == '>' || c == '/' || c == '\x7b' || isNameStart c

theorem not_startsPart {c : Char} (h : startsPart c = true) : c ∉ [':', '.', '<', '=', ',', '-', '\\'] := by
  intro hmem
  simp only [List.mem_cons, List.not_mem_nil, or_false] at hmem
  rcases hmem with rfl | rfl | rfl | rfl | rfl | rfl | rfl <;> exact absurd h (by decide)

variable {x : Reached Kind} {w : WrittenTag} {p : WrittenPart} {parts : List WrittenPart} {blanks rest tail : List Char}

/-- White space, and a part of a start tag or its end. -/
structure Goes (blanks rest : List Char) : Prop extends Clear blanks rest where
  head : ∃ c, rest.head? = some c ∧ startsPart c = true

theorem Goes.head?_ne (h : Goes blanks rest) {c : Char} (hc : c ∈ [':', '.', '<', '=', ',', '-', '\\']) :
    rest.head? ≠ some c := by
  obtain ⟨d, hd, hstarts⟩ := h.head
  rw [hd]
  rintro ⟨rfl⟩
  exact not_startsPart hstarts hc

/-- No type parameter goes on here. -/
theorem Goes.heads (h : Goes blanks rest) : ∀ c ∈ [':', '=', ','], rest.head? ≠ some c := by
  intro c hc
  have hsigns : [':', '=', ','] ⊆ [':', '.', '<', '=', ',', '-', '\\'] := by simp
  exact h.head?_ne (hsigns hc)

theorem Goes.sign_none (h : Goes blanks rest) {c : Char} {s : List Char} {sign : String} (hsign : sign.toList = c :: s)
    (hc : c ∈ [':', '.', '<', '=', ',', '-', '\\']) (hx : x.rest = blanks ++ rest) :
    Answers grammar (Jsx.sign sign) x none := by
  refine answers_sign_none hx h.blank h.stop ?_
  rw [hsign]
  rintro ⟨behind, rfl⟩
  exact h.head?_ne hc rfl

theorem EndsName.of_blanks (hne : blanks ≠ []) (hblanks : ∀ c ∈ blanks, isSpace c = true) : EndsName (blanks ++ rest) := by
  cases blanks with
  | nil => exact absurd rfl hne
  | cons c blanks =>
      intro d hd
      obtain rfl := Option.some.inj hd
      have hspace := hblanks c List.mem_cons_self
      refine ⟨isNameChar_of_isSpace hspace, ?_, ?_⟩
      · rintro rfl
        revert hspace
        decide
      · rintro rfl
        revert hspace
        decide

theorem WrittenPart.IsPlain.exists_start (h : p.IsPlain) :
    ∃ c s, p.body = c :: s ∧ (c = '\x7b' ∨ isNameStart c = true) := by
  have hreadable := h.readable
  cases p with
  | bare gap name =>
      obtain ⟨c, s, hs, hc⟩ := exists_of_isAttributeName hreadable
      exact ⟨c, s, hs, .inr hc⟩
  | valued gap body name literal =>
      obtain ⟨⟨c, s, hs, hc⟩, -⟩ := hreadable
      exact ⟨c, s, hs, .inr hc⟩
  | spread gap code =>
      obtain ⟨⟨s, hs⟩, -⟩ := hreadable
      exact ⟨'\x7b', s, hs, .inl rfl⟩

/-- The end of a start tag stands behind white space. -/
theorem Goes.of_isTagEnd (h : IsTagEnd tail) : ∃ blanks rest, tail = blanks ++ rest ∧ Goes blanks rest ∧
    ((∃ behind, rest = '>' :: behind) ∨ ∃ behind, rest = '/' :: '>' :: behind) := by
  have hends {c : Char} {s : List Char} (blanks : List Char) (hblanks : ∀ d ∈ blanks, isSpace d = true)
      (hc : isNameChar c = false ∧ c ≠ '-' ∧ c ≠ '\\') : EndsName (blanks ++ c :: s) := by
    cases blanks with
    | nil => exact fun d hd => Option.some.inj hd ▸ hc
    | cons d blanks => exact .of_blanks (List.cons_ne_nil _ _) hblanks
  obtain ⟨blanks, behind, hblanks, rfl | rfl⟩ := h
  · refine ⟨blanks, '>' :: behind, rfl, ⟨⟨hblanks, .of_cons (by decide) (by decide), hends blanks hblanks (by decide)⟩,
      '>', rfl, by decide⟩, .inl ⟨behind, rfl⟩⟩
  · have hstop : IsStop ('/' :: '>' :: behind) := by
      refine ⟨fun c hc => ?_, ?_, ?_⟩
      · rw [← Option.some.inj hc]
        decide
      · exact fun hprefix => absurd (List.cons_prefix_cons.mp (List.cons_prefix_cons.mp hprefix).2).1 (by decide)
      · exact fun hprefix => absurd (List.cons_prefix_cons.mp (List.cons_prefix_cons.mp hprefix).2).1 (by decide)
    exact ⟨blanks, _, rfl, ⟨⟨hblanks, hstop, hends blanks hblanks (by decide)⟩, '/', rfl, by decide⟩, .inr ⟨behind, rfl⟩⟩

/-- Behind white space a part stands. -/
theorem Goes.of_part (h : p.IsPlain) (rest : List Char) : Goes p.gap (p.body ++ rest) := by
  obtain ⟨c, s, hbody, hc⟩ := h.exists_start
  rw [hbody]
  refine ⟨⟨h.gap, ?_, .of_blanks h.gap_ne h.gap⟩, c, rfl, ?_⟩
  · rcases hc with rfl | hc
    · exact .of_cons (by decide) (by decide)
    · exact isStop_of_isNameStart hc _
  · rcases hc with rfl | hc
    · decide
    · simp [startsPart, hc]

/-- Behind each part of a start tag the next one stands, or the end of the tag. -/
theorem Goes.of_parts (hparts : ∀ p ∈ parts, p.IsPlain) (hend : IsTagEnd tail) :
    ∃ blanks rest, parts.flatMap WrittenPart.text ++ tail = blanks ++ rest ∧ Goes blanks rest := by
  cases parts with
  | nil =>
      obtain ⟨blanks, rest, htail, hgoes, -⟩ := Goes.of_isTagEnd hend
      exact ⟨blanks, rest, htail, hgoes⟩
  | cons p parts =>
      refine ⟨p.gap, p.body ++ (parts.flatMap WrittenPart.text ++ tail), ?_, .of_part (hparts p List.mem_cons_self) _⟩
      rw [List.flatMap_cons, WrittenPart.text, List.append_assoc, List.append_assoc]

theorem answers_tagWord_none {c : Char} (hx : x.rest.head? = some c) (hstart : isNameStart c = false) (hc : c ≠ '\\') :
    Answers grammar tagWord x none := by
  have hplain : ∀ d, x.rest.head? = some d → isPlainStart d = false := by
    intro d hd
    obtain rfl := Option.some.inj (hx.symm.trans hd)
    refine Bool.eq_false_iff.mpr fun hplain => ?_
    rw [isNameStart_of_isPlainStart hplain] at hstart
    cases hstart
  have hname : ∀ d, x.rest.head? = some d → isNameStart d = false := by
    intro d hd
    rwa [← Option.some.inj (hx.symm.trans hd)]
  have hwritten : x.rest.head? ≠ some '\\' := by
    rw [hx]
    exact fun h => hc (Option.some.inj h)
  exact .right (.seq_none (.seq_none (.seq_none (.char_none hplain))))
    (.seq_none (.right (.char_none hname) (answers_writtenCharacter_none hwritten)))

theorem answers_tagAttribute_none {c : Char} (hx : x.rest.head? = some c) (hstart : isNameStart c = false) (hc : c ≠ '\\') :
    Answers grammar tagAttribute x none := by
  have hword {y : Reached Kind} (hy : y.rest = x.rest) : Answers grammar tagWord y none :=
    answers_tagWord_none (hy ▸ hx) hstart hc
  have hname : Answers grammar attributeName { x with found := [] } none :=
    .right (.seq_none (.seq_none (.seq_none (.seq_none (hword rfl))))) (hword rfl)
  exact Answers.branch .attribute (.seq_none (Answers.token .attributeName hname))

theorem answers_jsxExpression_none (hx : IsStop x.rest) (hbrace : x.rest.head? ≠ some '\x7b') :
    Answers grammar (rule .jsxExpression) x none := by
  have hinside : Answers grammar bracedParts { x with found := [] } none :=
    .seq_none (answers_text_none (not_prefix_of_head hbrace))
  exact .rule (.seq (answers_trivia_here hx) (Answers.branch .expression hinside))

theorem answers_attribute {y : Reached Kind} (h : Answers grammar attributeParts { x with found := [] } (some y)) :
    Answers grammar tagAttribute x
      (some { y with found := .branch .attribute x.offset y.offset y.found.reverse :: x.found }) :=
  Answers.branch Kind.attribute h

theorem answers_jsxExpression {y : Reached Kind} (hx : IsStop x.rest)
    (h : Answers grammar bracedParts { x with found := [] } (some y)) : Answers grammar (rule .jsxExpression) x
      (some { y with found := .branch .expression x.offset y.offset y.found.reverse :: x.found }) :=
  .rule (.seq (answers_trivia_here hx) (Answers.branch Kind.expression h))

/-- The pattern of an attribute, or of an expression in its place. -/
def partPattern : Part := tagAttribute <|> rule .jsxExpression

theorem known_attributeParts : Known attributeParts := ⟨nofun, nofun⟩

theorem known_bracedParts : Known bracedParts := ⟨nofun, nofun⟩

/-- A part of a start tag is read as it is written. -/
theorem answers_part (hp : p.IsPlain) (hx : x.rest = p.body ++ (blanks ++ rest)) (h : Goes blanks rest) :
    ∃ tree flag, (∀ before trees, attributesOf before (tree :: trees) =
        { name := p.name?, literal := p.literal?, before, start := x.offset, stop := x.offset + p.body.length } ::
          attributesOf (x.offset + p.body.length) trees) ∧ elementTagsIn tree = [] ∧
      Answers grammar partPattern x
        (some { offset := x.offset + p.body.length, rest := blanks ++ rest, found := tree :: x.found, flag }) := by
  have hreadable := hp.readable
  cases p with
  | bare gap name =>
      have hname := answers_token .attributeName
        (answers_attributeName (x := { x with found := [] }) hreadable hx h.toClear (h.head?_ne (by decide))) hx
      have hinside : Answers grammar attributeParts { x with found := [] } (some _) :=
        .seq hname (.right (.seq_none (h.sign_none (show "=".toList = ['='] from rfl) (by decide) rfl)) .empty)
      exact ⟨.branch .attribute x.offset (x.offset + name.length)
        [.leaf .attributeName x.offset (x.offset + name.length) name], x.flag, fun before trees => rfl, rfl,
        .left (answers_attribute hinside)⟩
  | valued gap body name literal =>
      obtain ⟨-, hread⟩ := hreadable
      obtain ⟨parts, flag, ⟨hname, hliteral, hnone⟩, hinside⟩ := hread (x := { x with found := [] }) hx rfl
      refine ⟨.branch .attribute x.offset (x.offset + body.length) parts.reverse.reverse, flag, fun before trees => ?_,
        ?_, .left (answers_attribute hinside)⟩
      · rw [List.reverse_reverse, attributesOf, hname, hliteral]
        rfl
      · rw [List.reverse_reverse]
        exact hnone
  | spread gap code =>
      obtain ⟨⟨s, rfl⟩, hread⟩ := hreadable
      obtain ⟨parts, flag, hnone, hinside⟩ := hread (x := { x with found := [] }) hx rfl
      have hhead : x.rest.head? = some '\x7b' := by
        rw [hx]
        rfl
      have hstop : IsStop x.rest := by
        rw [hx]
        exact .of_cons (by decide) (by decide)
      rw [← List.reverse_reverse parts] at hnone
      exact ⟨.branch .expression x.offset (x.offset + ('\x7b' :: s).length) parts.reverse.reverse, flag,
        fun before trees => rfl, hnone, .right (answers_tagAttribute_none hhead (by decide) (by decide))
        (answers_jsxExpression hstop hinside)⟩

/-- The parts of a start tag are read one after another, up to the end of the tag. -/
theorem answers_parts (hparts : ∀ p ∈ parts, p.IsPlain) (hend : IsTagEnd tail)
    (hx : x.rest = parts.flatMap WrittenPart.text ++ tail) : ∃ trees flag,
      attributesOf x.offset trees = WrittenPart.attributes x.offset parts ∧ elementTags trees = [] ∧
      Answers grammar (.many (foundTrivia ++ partPattern)) x
        (some { offset := x.offset + (parts.flatMap WrittenPart.text).length, rest := tail,
                found := trees.reverse ++ x.found, flag }) := by
  induction parts generalizing x with
  | nil =>
      obtain ⟨blanks, rest, rfl, hgoes, hrest⟩ := Goes.of_isTagEnd hend
      obtain ⟨c, s, rfl, hc⟩ : ∃ c s, rest = c :: s ∧ (c = '>' ∨ c = '/') := by
        rcases hrest with ⟨s, rfl⟩ | ⟨s, rfl⟩
        · exact ⟨_, _, rfl, .inl rfl⟩
        · exact ⟨_, _, rfl, .inr rfl⟩
      refine ⟨[], x.flag, rfl, rfl, ?_⟩
      have hself : x.past [] (blanks ++ c :: s) = x := Reached.past_nil hx
      change Answers grammar _ x (some (x.past [] (blanks ++ c :: s)))
      rw [hself]
      rw [List.flatMap_nil, List.nil_append] at hx
      refine .many_none (.seq (answers_foundTrivia hx hgoes.blank hgoes.stop) ?_)
      rcases hc with rfl | rfl
      · exact .right (answers_tagAttribute_none (c := '>') rfl (by decide) (by decide))
          (answers_jsxExpression_none hgoes.stop (by simp))
      · exact .right (answers_tagAttribute_none (c := '/') rfl (by decide) (by decide))
          (answers_jsxExpression_none hgoes.stop (by simp))
  | cons p parts ih =>
      obtain ⟨hp, hparts⟩ := List.forall_mem_cons.mp hparts
      obtain ⟨blanks, rest, hbehind, hgoes⟩ := Goes.of_parts hparts hend
      have hx' : x.rest = p.gap ++ (p.body ++ (blanks ++ rest)) := by
        rw [hx, ← hbehind, List.flatMap_cons, WrittenPart.text]
        simp only [List.append_assoc]
      have hgap := answers_foundTrivia hx' hp.gap (Goes.of_part hp _).stop
      obtain ⟨tree, flag, htree, hnone, hpart⟩ := answers_part (x := x.past p.gap (p.body ++ (blanks ++ rest))) hp rfl hgoes
      obtain ⟨trees, flag', htrees, hothers, hmany⟩ := ih (x := Reached.mk (x.offset + p.gap.length + p.body.length)
        (blanks ++ rest) (tree :: x.found) flag) hparts hbehind.symm
      have hoffset : x.offset + p.gap.length + p.body.length = x.offset + p.text.length := by
        rw [WrittenPart.text, List.length_append]
        omega
      refine ⟨tree :: trees, flag', ?_, by rw [elementTags, hnone, hothers]; rfl, ?_⟩
      · rw [htree, Reached.past_offset, WrittenPart.attributes, ← hoffset]
        simp only at htrees
        rw [htrees]
        simp only [WrittenPart.placed, hoffset]
      · have hlength : x.offset + ((p :: parts).flatMap WrittenPart.text).length =
            x.offset + p.gap.length + p.body.length + (parts.flatMap WrittenPart.text).length := by
          rw [List.flatMap_cons, List.length_append, hoffset, Nat.add_assoc]
        have hfurther : x.offset + p.gap.length + p.body.length ≠ x.offset := by
          have := List.length_pos_iff.mpr hp.gap_ne
          omega
        rw [hlength, List.reverse_cons, List.append_assoc]
        exact .many_more (.seq hgap hpart) hfurther hmany

namespace WrittenTag.IsPlain

variable (h : w.IsPlain)

include h

theorem exists_start : ∃ c s, w.name = c :: s ∧ isNameStart c = true := by
  obtain ⟨word, further, hname, hword, -⟩ := exists_of_isElementName h.name
  obtain ⟨c, s, rfl, hc⟩ := exists_of_isTagWord hword
  exact ⟨c, s ++ further, hname, hc⟩

/-- A plain start tag is read as it is written. -/
theorem answers_opening (hend : IsTagEnd tail) (hx : x.rest = w.text ++ tail) (hfound : x.found = []) :
    ∃ parts flag, tagOf parts = some (w.tag x.offset) ∧ elementTags parts = [] ∧ Answers grammar openingParts x
      (some { offset := x.offset + w.text.length, rest := tail, found := parts.reverse, flag }) := by
  obtain ⟨c, s, hstart, hc⟩ := h.exists_start
  obtain ⟨blanks, rest, hbehind, hgoes⟩ := Goes.of_parts h.parts hend
  have hx' : x.rest = ['<'] ++ (w.name ++ (blanks ++ rest)) := by
    rw [hx, ← hbehind, WrittenTag.text, List.cons_append, List.append_assoc]
    rfl
  let y : Reached Kind := x.past ['<'] (w.name ++ (blanks ++ rest))
  have hstop : IsStop y.rest := by
    change IsStop (w.name ++ (blanks ++ rest))
    rw [hstart]
    exact isStop_of_isNameStart hc _
  have hname : Answers grammar (.token .name elementName) y
      (some { y.past w.name (blanks ++ rest) with
        found := .leaf .name (x.offset + 1) (x.offset + 1 + w.name.length) w.name :: x.found }) :=
    answers_token .name (answers_elementName h.name rfl hgoes.toClear (hgoes.head?_ne (by decide)) (hgoes.head?_ne (by decide))) rfl
  let z : Reached Kind := { y.past w.name (blanks ++ rest) with
    found := .leaf .name (x.offset + 1) (x.offset + 1 + w.name.length) w.name :: x.found }
  have htypes : Answers grammar (Pattern.opt (foundTrivia ++ .branch .typeArguments typeArgumentList)) z (some z) := by
    refine .right (.seq (answers_foundTrivia rfl hgoes.blank hgoes.stop) ?_) .empty
    refine Answers.branch Kind.typeArguments (.seq_none (.seq_none (.seq_none ?_)))
    exact answers_sign_none_here hgoes.stop (not_prefix_of_head (hgoes.head?_ne (by decide)))
  obtain ⟨trees, flag, htrees, hnone, hparts⟩ := answers_parts (x := z) h.parts hend hbehind.symm
  refine ⟨.leaf .name (x.offset + 1) (x.offset + 1 + w.name.length) w.name :: trees, flag, ?_, hnone, ?_⟩
  · exact congrArg (fun attributes => some (Tag.mk w.name (x.offset + 1 + w.name.length) attributes)) htrees
  · have hlength : x.offset + w.text.length =
        x.offset + 1 + w.name.length + (w.parts.flatMap WrittenPart.text).length := by
      rw [WrittenTag.text, List.length_cons, List.length_append]
      omega
    rw [hlength, List.reverse_cons, ← hfound]
    refine .seq (answers_text hx') (.left (.seq (.seq (.seq (answers_foundTrivia_here hstop) hname) htypes) ?_))
    exact hparts

/-- The name starts with a word, behind which there is no more of it, or a point or a hyphen. -/
theorem exists_front : ∃ front back, w.name = front ++ back ∧ isSimpleName front = true ∧
    (back = [] ∨ back.head? = some '.' ∨ back.head? = some '-') := by
  obtain ⟨word, further, hname, hword, hfurther⟩ := exists_of_isElementName h.name
  by_cases hsimple : isSimpleName word = true
  · refine ⟨word, further, hname, hsimple, ?_⟩
    rcases hfurther with hfurther | ⟨-, hfurther⟩
    · exact .inl hfurther
    · exact .inr (.inl hfurther)
  · have hnil : further = [] := hfurther.resolve_right fun hother => hsimple hother.1
    have hhyphenated : isHyphenated word = true := (Bool.or_eq_true_iff.mp hword).resolve_left hsimple
    cases word with
    | nil => cases hhyphenated
    | cons c s =>
        simp only [isHyphenated, Bool.and_eq_true, List.all_eq_true, Bool.or_eq_true, beq_iff_eq, List.contains_iff_mem]
          at hhyphenated
        obtain ⟨⟨hc, hs⟩, hmem⟩ := hhyphenated
        obtain ⟨before, behind, rfl, hbefore⟩ := List.eq_append_cons_of_mem hmem
        refine ⟨c :: before, '-' :: behind, by rw [hname, hnil, List.append_nil]; rfl, ?_, .inr (.inr rfl)⟩
        refine Bool.and_eq_true_iff.mpr ⟨isNameStart_of_isPlainStart hc, List.all_eq_true.mpr fun d hd => ?_⟩
        exact isNameChar_of_isPlainChar ((hs d (List.mem_append_left _ hd)).resolve_right fun heq => hbefore (heq ▸ hd))

end WrittenTag.IsPlain

/-- Type parameters are read out of the first word of a start tag, up to their end, where nothing goes on with them. -/
theorem answers_typeParameter {front : List Char} {y : Reached Kind} (htrivia : Answers grammar trivia x (some y))
    (hy : y.rest = '<' :: (front ++ (blanks ++ rest))) (hfront : isSimpleName front = true)
    (hword : front ∉ ["const".toList, "in".toList, "out".toList]) (hblanks : ∀ c ∈ blanks, isSpace c = true)
    (hstop : IsStop rest) (hends : ∀ c, (blanks ++ rest).head? = some c → isNameChar c = false ∧ c ≠ '\\')
    (hheads : ∀ c ∈ [':', '=', ','], rest.head? ≠ some c) (hextends : rest.takeWhile isNameChar ≠ "extends".toList) :
    Answers grammar (sign "<" ++ listed typeParameter ++ Pattern.opt (sign ",")) x
      (some (y.past ('<' :: front) (blanks ++ rest))) := by
  let u : Reached Kind := y.past ['<'] (front ++ (blanks ++ rest))
  let v : Reached Kind := y.past ('<' :: front) (blanks ++ rest)
  have hu : IsStop u.rest := isStop_of_isTagWord (Bool.or_eq_true_iff.mpr (.inl hfront)) _
  have hnames := forall_of_isSimpleName hfront
  have hmodifier {w : String} (hw : w.toList.all isNameChar = true) (hne : front ≠ w.toList) :
      Answers grammar (word w) u none := by
    refine answers_word_none hw (List.nil_append u.rest).symm nofun hu ?_
    change (front ++ (blanks ++ rest)).takeWhile isNameChar ≠ _
    rwa [Text.takeWhile_append_eq hnames fun c hc => (hends c hc).1]
  have hsign {c : Char} {s : String} (hs : s.toList = [c]) (hc : c ∈ [':', '=', ',']) : Answers grammar (sign s) v none := by
    refine answers_sign_none (x := v) rfl hblanks hstop ?_
    rw [hs]
    exact not_prefix_of_head (hheads c hc)
  simp only [List.mem_cons, List.not_mem_nil, or_false, not_or] at hword
  have hparameter : Answers grammar typeParameter u (some v) := by
    refine .seq (.seq (.seq (.many_none (.seq_none (.right ?_ (.right ?_ ?_)))) ?_) (.right (.seq_none (.right ?_ ?_)) .empty))
      (.right (.seq_none ?_) .empty)
    · exact hmodifier (by decide) hword.1
    · exact hmodifier (by decide) hword.2.1
    · exact hmodifier (by decide) hword.2.2
    · have hname := Answers.seq (answers_trivia_here hu) (answers_nameChars hfront (x := u) rfl hends)
      rwa [Reached.past_past] at hname
    · exact answers_word_none (by decide) rfl hblanks hstop hextends
    · exact hsign rfl (by decide)
    · exact hsign rfl (by decide)
  exact .seq (.seq (.seq htrivia (answers_text (s := ['<']) hy))
    (.seq hparameter (.many_none (.seq_none (hsign rfl (by decide)))))) (.right (hsign rfl (by decide)) .empty)

section TypeParameters

variable {y : Reached Kind} (htrivia : Answers grammar trivia x (some y)) (hy : y.rest = w.text ++ tail)

include htrivia hy

/-- No type parameters end where an attribute follows the name. -/
theorem answers_typeParameters_part (hend : IsTagEnd tail) (hfront : isSimpleName w.name = true)
    (hword : w.name ∉ ["const".toList, "in".toList, "out".toList]) (hw : w.parts = p :: parts)
    (hparts : ∀ p ∈ w.parts, p.IsPlain) : Answers grammar (rule .typeParameters) x none := by
  obtain ⟨hp, hplain⟩ := List.forall_mem_cons.mp (hw ▸ hparts)
  obtain ⟨blanks, rest, hbehind, hgoes⟩ := Goes.of_parts hplain hend
  have hthere := Goes.of_part hp (blanks ++ rest)
  have hy' : y.rest = '<' :: (w.name ++ (p.gap ++ (p.body ++ (blanks ++ rest)))) := by
    rw [hy, ← hbehind, WrittenTag.text, hw, List.flatMap_cons, WrittenPart.text]
    simp only [List.cons_append, List.append_assoc]
  have hextends : (p.body ++ (blanks ++ rest)).takeWhile isNameChar ≠ "extends".toList := by
    rw [Text.takeWhile_append_of_head fun c hc => (hgoes.ends c hc).1]
    exact hp.word
  have hfirst := answers_typeParameter htrivia hy' hfront hword hp.gap hthere.stop hthere.ends.nameChars
    hthere.heads hextends
  refine .rule (.seq hfirst (answers_sign_none rfl hp.gap hthere.stop (not_prefix_of_head ?_)))
  obtain ⟨c, s, hbody, hc⟩ := hp.exists_start
  rw [hbody]
  rintro ⟨rfl⟩
  exact absurd hc (by decide)

/-- Without attributes they end with the start tag, unless it is closed at once. -/
theorem answers_typeParameters_bare (hend : IsTagEnd tail) (hfront : isSimpleName w.name = true)
    (hword : w.name ∉ ["const".toList, "in".toList, "out".toList]) (hw : w.parts = []) :
    Answers grammar (rule .typeParameters) x none ∨
      ∃ blanks rest, (∀ c ∈ blanks, isSpace c = true) ∧ tail = blanks ++ '>' :: rest ∧
        Answers grammar (rule .typeParameters) x
          (some { y with offset := y.offset + w.text.length + blanks.length + 1, rest }) := by
  obtain ⟨blanks, rest, rfl, hgoes, hrest⟩ := Goes.of_isTagEnd hend
  have hy' : y.rest = '<' :: (w.name ++ (blanks ++ rest)) := by
    rw [hy, WrittenTag.text, hw, List.flatMap_nil, List.append_nil, List.cons_append]
  have hextends : rest.takeWhile isNameChar ≠ "extends".toList := by
    rcases hrest with ⟨behind, rfl⟩ | ⟨behind, rfl⟩ <;>
    · intro htake
      cases htake
  have hfirst := answers_typeParameter htrivia hy' hfront hword hgoes.blank hgoes.stop hgoes.ends.nameChars
    hgoes.heads hextends
  rcases hrest with ⟨behind, rfl⟩ | ⟨behind, rfl⟩
  · refine .inr ⟨blanks, behind, hgoes.blank, rfl, .rule ?_⟩
    have hall := Answers.seq hfirst (.seq (answers_trivia rfl hgoes.blank hgoes.stop) (answers_text (s := ['>']) rfl))
    rw [Reached.past_past, Reached.past_past] at hall
    have hlength : y.offset + w.text.length + blanks.length + 1 =
        y.offset + ('<' :: w.name ++ (blanks ++ ['>'])).length := by
      rw [WrittenTag.text, hw]
      simp
      omega
    rw [hlength]
    exact hall
  · exact .inl (.rule (.seq hfirst
      (answers_sign_none rfl hgoes.blank hgoes.stop (not_prefix_of_head (c := '>') (by simp)))))

/-- Nor do they end where the name goes on. -/
theorem answers_typeParameters_name {front s : List Char} {c : Char} (hname : w.name = front ++ c :: s)
    (hc : c = '.' ∨ c = '-') (hfront : isSimpleName front = true)
    (hword : front ∉ ["const".toList, "in".toList, "out".toList]) : Answers grammar (rule .typeParameters) x none := by
  let behind := s ++ (w.parts.flatMap WrittenPart.text ++ tail)
  have hy' : y.rest = '<' :: (front ++ ([] ++ c :: behind)) := by
    rw [hy, WrittenTag.text, hname]
    simp only [behind, List.cons_append, List.append_assoc, List.nil_append]
  have hstop : IsStop (c :: behind) := by
    rcases hc with rfl | rfl <;> exact .of_cons (by decide) (by decide)
  have hends : ∀ d, (c :: behind).head? = some d → isNameChar d = false ∧ d ≠ '\\' := by
    intro d hd
    rw [← Option.some.inj hd]
    rcases hc with rfl | rfl <;> decide
  have hextends : (c :: behind).takeWhile isNameChar ≠ "extends".toList := by
    rcases hc with rfl | rfl <;>
    · intro htake
      cases htake
  have hfirst := answers_typeParameter htrivia hy' hfront hword (List.forall_mem_nil _) hstop hends
    (by rcases hc with rfl | rfl <;> simp) hextends
  refine .rule (.seq hfirst (answers_sign_none_here hstop (not_prefix_of_head (c := '>') ?_)))
  rcases hc with rfl | rfl <;> simp

end TypeParameters

/-- Type parameters are read out of a plain start tag only if it has no attributes and does not end itself. -/
theorem WrittenTag.IsPlain.answers_typeParameters {y : Reached Kind} (h : w.IsPlain) (hend : IsTagEnd tail)
    (htrivia : Answers grammar trivia x (some y)) (hy : y.rest = w.text ++ tail) :
    Answers grammar (rule .typeParameters) x none ∨
      ∃ blanks rest, (∀ c ∈ blanks, isSpace c = true) ∧ tail = blanks ++ '>' :: rest ∧
        Answers grammar (rule .typeParameters) x
          (some { y with offset := y.offset + w.text.length + blanks.length + 1, rest }) := by
  obtain ⟨front, back, hname, hfront, hback⟩ := h.exists_front
  have hword : front ∉ ["const".toList, "in".toList, "out".toList] := by
    have hback' : ∀ c, back.head? = some c → isNameChar c = false := by
      intro c hc
      rcases hback with rfl | hback | hback
      · cases hc
      · rw [← Option.some.inj (hback.symm.trans hc)]
        decide
      · rw [← Option.some.inj (hback.symm.trans hc)]
        decide
    have hnot := h.word
    rwa [hname, Text.takeWhile_append_eq (forall_of_isSimpleName hfront) hback'] at hnot
  rcases hback with rfl | hback
  · rw [List.append_nil] at hname
    rw [← hname] at hfront hword
    cases hparts : w.parts with
    | cons p parts => exact .inl (answers_typeParameters_part htrivia hy hend hfront hword hparts h.parts)
    | nil => exact answers_typeParameters_bare htrivia hy hend hfront hword hparts
  · cases back with
    | nil => simp at hback
    | cons c s => exact .inl (answers_typeParameters_name htrivia hy hname (by simpa using hback) hfront hword)

/-- A plain start tag is read as it is written. -/
theorem WrittenTag.IsPlain.reads (h : w.IsPlain) : w.Reads where
  start := by
    obtain ⟨c, s, hname, hc⟩ := h.exists_start
    exact ⟨c, s ++ w.parts.flatMap WrittenPart.text, by rw [WrittenTag.text, hname]; rfl, hc⟩
  opening := h.answers_opening
  typeParameters := h.answers_typeParameters

end Tags

end Jsx
end MarkupIds
