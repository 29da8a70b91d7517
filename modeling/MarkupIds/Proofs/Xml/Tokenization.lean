import MarkupIds.Proofs.Text.Position
import MarkupIds.Proofs.Xml.Expression
import MarkupIds.Proofs.Xml.Rewriting

/-! The reader of tokens and the expression for tokens find the same: what is read at a place is the first match of the
expression there, whatever other ways of matching it has. -/

namespace MarkupIds.Xml.Expression

open MarkupIds.Text (Regex isBlank after? cutAt cutBy after?_eq_some_iff)
open MarkupIds.Text.Regex
open Token (afterBetween afterType afterEndTag afterOther Stage)

variable {α : Type} {next : Groups → List Char → Option α} {f : Groups → List Char → α} {g : Groups} {s : List Char}

section Asides

theorem run_between (start stop : List Char) :
    (between start stop).run (fun g rest => some (f g rest)) g s = (afterBetween start stop s).map (f g) := by
  have hstop (g : Groups) (t : List Char) : (text stop).run (fun g rest => some (f g rest)) g t =
      (after? stop t).map (f g) := by
    rw [run_text]
    cases after? stop t <;> rfl
  rw [between, run_append, run_text, afterBetween]
  cases after? start s with
  | none => rfl
  | some r =>
      rw [Option.bind_some, Option.bind_some, run_append, anything, run_few_any hstop, cutAt, Option.map_map]
      rfl

theorem run_endTag : endTag.run next g s = (afterEndTag s).bind (next g) := by
  have hblanks {g : Groups} {s : List Char} : (many (one isBlank) ++ text ['>']).run next g s =
      (text ['>']).run next g (s.dropWhile isBlank) := by
    rw [run_append, run_many_one fun g c t hc => run_char_of_ne ?_ t]
    rintro rfl
    exact absurd hc (by decide)
  have hstop {g : Groups} {c : Char} {t : List Char} (hc : Token.isClosingChar c = true) :
      (many (one isBlank) ++ text ['>']).run next g (c :: t) = none := by
    simp only [Token.isClosingChar, Bool.not_eq_true', Bool.or_eq_false_iff, beq_eq_false_iff_ne] at hc
    rw [hblanks, List.dropWhile_cons_of_neg (by rw [hc.1]; exact Bool.false_ne_true), run_char_of_ne (Ne.symm hc.2)]
  have hname (r : List Char) : (run1 Token.isClosingChar ++ (many (one isBlank) ++ text ['>'])).run next g r =
      if (r.takeWhile Token.isClosingChar).isEmpty then none
      else (text ['>']).run next g ((r.dropWhile Token.isClosingChar).dropWhile isBlank) := by
    rw [run_append, run_run1 fun _ _ _ => hstop, hblanks]
  rw [endTag, run_append, run_text]
  unfold afterEndTag
  split
  next r =>
    have hafter : after? ['<', '/'] ('<' :: '/' :: r) = some r := after?_eq_some_iff.mpr rfl
    rw [hafter, Option.bind_some, hname, List.span_eq_takeWhile_dropWhile]
    unfold Token.isClosingChar
    dsimp only
    cases (r.takeWhile fun c => !(isBlank c || c == '>')).isEmpty with
    | true =>
        rw [if_pos rfl]
        split <;> rfl
    | false =>
        rw [if_neg Bool.false_ne_true]
        split
        next rest hrest =>
          rw [hrest, run_char_self]
          rfl
        next hnot =>
          generalize (r.dropWhile fun c => !(isBlank c || c == '>')).dropWhile isBlank = t at hnot ⊢
          cases t with
          | nil => rfl
          | cons c t =>
              rw [run_char_of_ne fun heq => hnot t (by rw [heq])]
              rfl
  next hnot =>
    cases hafter : after? ['<', '/'] s with
    | none => rfl
    | some r => exact absurd (after?_eq_some_iff.mp hafter) (hnot r)

theorem run_plain {c : Char} (hc : (c != '<') = true) (t : List Char) :
    (run1 (· != '<')).run (fun g rest => some (f g rest)) g (c :: t) = some (f g ((c :: t).dropWhile (· != '<'))) := by
  have hdrop : (c :: t).dropWhile (· != '<') = t.dropWhile (· != '<') := List.dropWhile_cons_of_pos hc
  rw [run1, run_append, run_one_cons, if_pos hc, run_many_one_of_isSome rfl, hdrop]

end Asides

section DocType

theorem afterType_quoted (quote : Char) (s : List Char) :
    afterType (.quoted quote) s = (cutAt [quote] s).bind fun found => afterType .outside found.2 := by
  induction s with
  | nil => rfl
  | cons c s ih =>
      rw [afterType, cutAt, cutBy]
      by_cases hc : c = quote
      · subst hc
        rw [if_pos (beq_self_eq_true c), Text.after?_cons_self]
        rfl
      · have hnone : after? [quote] (c :: s) = none := by
          cases hafter : after? [quote] (c :: s) with
          | none => rfl
          | some rest => exact absurd (List.cons.inj (after?_eq_some_iff.mp hafter)).1 hc
        rw [if_neg (by simpa using hc), hnone, ih, cutAt]
        cases cutBy (after? [quote]) s <;> rfl

/-- A part of a document type in square brackets ends at the first one from which `next` can go on. -/
theorem run_bracketed {bound : Nat} (h : ∀ g rest, rest.length < bound → next g rest = (afterType .outside rest).map (f g))
    (hs : s.length ≤ bound) : (anything ++ text [']']).run next g s = (afterType .bracketed s).map (f g) := by
  rw [run_append, anything]
  induction s with
  | nil =>
      rw [run_few, run_one_nil]
      rfl
  | cons c s ih =>
      have hshort : s.length < bound := Nat.lt_of_succ_le hs
      rw [run_few, run_one_cons, if_pos rfl, again_of_lt (Nat.lt_succ_self _), ih (Nat.le_of_lt hshort), afterType]
      by_cases hc : c = ']'
      · subst hc
        rw [run_char_self, h g s hshort, if_pos (beq_self_eq_true ']')]
        cases afterType .outside s <;> rfl
      · rw [run_char_of_ne (Ne.symm hc), if_neg (by simpa using hc)]
        rfl

theorem run_typePart_plain {c : Char} (hc : Token.isTypeChar c = true) (t : List Char) :
    typePart.run next g (c :: t) = next g t := by
  have hne : c ≠ '[' ∧ c ≠ '"' ∧ c ≠ '\'' := by
    refine ⟨?_, ?_, ?_⟩ <;> rintro rfl <;> exact absurd hc (by decide)
  rw [typePart, run_or, run_or, run_or, run_one_cons, if_pos hc, run_quotedBy_of_ne (Ne.symm hne.2.1),
    run_quotedBy_of_ne (Ne.symm hne.2.2), between, run_append, run_char_of_ne (Ne.symm hne.1)]
  cases next g t <;> rfl

theorem run_typePart_quoted {quote : Char} (hquote : quote = '"' ∨ quote = '\'') (t : List Char) :
    typePart.run next g (quote :: t) = (cutAt [quote] t).bind fun found => next g found.2 := by
  obtain rfl | rfl := hquote
  · rw [typePart, run_or, run_or, run_or, run_one_cons, if_neg (by decide), run_quotedBy_self,
      run_quotedBy_of_ne (by decide), between, run_append, run_char_of_ne (by decide)]
    cases (cutAt ['"'] t).bind fun found => next g found.2 <;> rfl
  · rw [typePart, run_or, run_or, run_or, run_one_cons, if_neg (by decide), run_quotedBy_of_ne (by decide),
      run_quotedBy_self, between, run_append, run_char_of_ne (by decide)]
    cases (cutAt ['\''] t).bind fun found => next g found.2 <;> rfl

theorem run_typePart_bracketed (t : List Char) :
    typePart.run next g ('[' :: t) = (anything ++ text [']']).run next g t := by
  rw [typePart, run_or, run_or, run_or, run_one_cons, if_neg (by decide), run_quotedBy_of_ne (by decide),
    run_quotedBy_of_ne (by decide), between, run_append, run_char_self]
  rfl

theorem run_typePart_close (t : List Char) : typePart.run next g ('>' :: t) = none := by
  rw [typePart, run_or, run_or, run_or, run_one_cons, if_neg (by decide), run_quotedBy_of_ne (by decide),
    run_quotedBy_of_ne (by decide), between, run_append, run_char_of_ne (by decide)]
  rfl

theorem run_typeParts {bound : Nat} (hs : s.length < bound) :
    (many typePart ++ text ['>']).run (fun g rest => some (f g rest)) g s = (afterType .outside s).map (f g) := by
  rw [run_append]
  induction bound generalizing g s with
  | zero => exact absurd hs (Nat.not_lt_zero _)
  | succ bound ih =>
      have hagain (g : Groups) {rest : List Char} (hless : rest.length < s.length) :
          again (many typePart) ((text ['>']).run fun g rest => some (f g rest)) s g rest =
            (afterType .outside rest).map (f g) := by
        rw [again_of_lt hless, ih (by omega)]
      rw [run_many]
      cases s with
      | nil => rfl
      | cons c t =>
          by_cases hclose : c = '>'
          · subst hclose
            rw [run_typePart_close, run_char_self]
            rfl
          rw [run_char_of_ne (Ne.symm hclose), afterType, if_neg (by simpa using hclose)]
          have hnone {a : Option α} : (a.orElse fun _ => none) = a := by cases a <;> rfl
          rw [hnone]
          by_cases hquote : c = '"' ∨ c = '\''
          · rw [run_typePart_quoted hquote, if_pos (by simpa using hquote), afterType_quoted]
            cases hcut : cutAt [c] t with
            | none => rfl
            | some found =>
                obtain ⟨value, rest⟩ := found
                have hlength := congrArg List.length (Text.cutAt_eq_some hcut)
                simp only [List.length_append, List.length_cons] at hlength
                have hless : rest.length < (c :: t).length := by
                  rw [List.length_cons]
                  omega
                rw [Option.bind_some, Option.bind_some, hagain g hless]
          rw [if_neg (by simpa using hquote)]
          by_cases hopen : c = '['
          · subst hopen
            rw [run_typePart_bracketed, if_pos (beq_self_eq_true '[')]
            exact run_bracketed (fun g rest hless => hagain g hless) (Nat.le_succ _)
          · have hplain : Token.isTypeChar c = true := by
              simp only [Token.isTypeChar, Bool.not_eq_true', Bool.or_eq_false_iff, beq_eq_false_iff_ne]
              exact ⟨⟨⟨hopen, hclose⟩, (not_or.mp hquote).1⟩, (not_or.mp hquote).2⟩
            rw [run_typePart_plain hplain, if_neg (by simpa using hopen), hagain g (Nat.lt_succ_self _)]

/-- A document type matches as the search for its end finds it. -/
theorem run_docType : docType.run (fun g rest => some (f g rest)) g s =
    ((after? "<!DOCTYPE".toList s).bind (afterType .outside)).map (f g) := by
  rw [docType, run_append, run_text]
  cases after? "<!DOCTYPE".toList s with
  | none => rfl
  | some r => exact run_typeParts (Nat.lt_succ_self r.length)

end DocType

section Tokens

theorem run_openingTag : (tagWith StartTag.isNameChar id id id).run next g s =
    (StartTag.read? s).bind fun found => next g found.2 := by
  have hp (c : Char) (hc : StartTag.isNameChar c = true) : isBlank c = false ∧ c ≠ '/' ∧ c ≠ '>' := by
    simp only [StartTag.isNameChar, Bool.not_eq_true', Bool.or_eq_false_iff, beq_eq_false_iff_ne] at hc
    exact ⟨hc.1.1.1.1, hc.1.1.1.2, hc.1.1.2⟩
  have hother (h : ∀ r, s ≠ '<' :: r) : (tagWith StartTag.isNameChar id id id).run next g s = none := by
    cases s with
    | nil => rfl
    | cons c r =>
        rw [tagWith, run_append, run_char_of_ne fun heq => h r (by rw [heq])]
  unfold StartTag.read?
  split
  next r =>
    simp only [List.span_eq_takeWhile_dropWhile]
    rw [run_tagWith hp keeps_id keeps_id keeps_id]
    split
    next => rfl
    next =>
      simp only [List.append_nil]
      cases StartTag.readTail? (StartTag.readAttributes (r.dropWhile StartTag.isNameChar).length
        (r.dropWhile StartTag.isNameChar)).2 <;> rfl
  next hnot => exact hother fun r heq => hnot r heq

def matchOf (kind : String) (s rest : List Char) : Match := ⟨[(kind, passed s rest)], passed s rest, rest⟩

/-- The alternatives of a token in their order, each by what it finds. -/
theorem first_token (s : List Char) : token.first s =
    ((afterBetween "<!--".toList "-->".toList s).map (matchOf "comment" s)).orElse fun _ =>
    ((afterBetween "<![CDATA[".toList "]]>".toList s).map (matchOf "cdata" s)).orElse fun _ =>
    ((afterBetween "<?".toList "?>".toList s).map (matchOf "pi" s)).orElse fun _ =>
    (((after? "<!DOCTYPE".toList s).bind (afterType .outside)).map (matchOf "doctype" s)).orElse fun _ =>
    ((afterEndTag s).map (matchOf "end" s)).orElse fun _ =>
    ((StartTag.read? s).map fun found => matchOf "tag" s found.2).orElse fun _ =>
    (run1 (· != '<')).run (fun g rest => some ⟨g ++ [("text", passed s rest)], passed s rest, rest⟩) [] s := by
  rw [first, token, run_or, run_or, run_or, run_or, run_or, run_or, run_group, run_group, run_group, run_group,
    run_group, run_group, run_group, run_between, run_between, run_between, run_docType, run_endTag, run_openingTag]
  cases afterEndTag s <;> cases StartTag.read? s <;> rfl

def kinds : Token → List String
  | .opening _ => ["tag"]
  | .closing _ => ["end"]
  | .other _ => ["comment", "cdata", "pi", "doctype", "text"]

theorem afterOther_eq_none_iff : afterOther s = none ↔ afterBetween "<!--".toList "-->".toList s = none ∧
    afterBetween "<![CDATA[".toList "]]>".toList s = none ∧ afterBetween "<?".toList "?>".toList s = none ∧
      (after? "<!DOCTYPE".toList s).bind (afterType .outside) = none := by
  unfold afterOther
  simp only [Option.orElse_eq_or, Option.or_eq_none_iff]

/-- A comment, a section of character data, an instruction or a document type is the first match where there is one. -/
theorem first_token_of_afterOther {rest : List Char} (h : afterOther s = some rest) :
    ∃ kind ∈ ["comment", "cdata", "pi", "doctype", "text"], token.first s = some (matchOf kind s rest) := by
  rw [first_token]
  unfold afterOther at h
  cases hcomment : afterBetween "<!--".toList "-->".toList s with
  | some end₁ =>
      rw [hcomment] at h
      cases h
      exact ⟨"comment", by decide, rfl⟩
  | none =>
  cases hcdata : afterBetween "<![CDATA[".toList "]]>".toList s with
  | some end₂ =>
      rw [hcomment, hcdata] at h
      cases h
      exact ⟨"cdata", by decide, rfl⟩
  | none =>
  cases hpi : afterBetween "<?".toList "?>".toList s with
  | some end₃ =>
      rw [hcomment, hcdata, hpi] at h
      cases h
      exact ⟨"pi", by decide, rfl⟩
  | none =>
      rw [hcomment, hcdata, hpi] at h
      simp only [Option.orElse_eq_or, Option.none_or] at h
      rw [h]
      exact ⟨"doctype", by decide, rfl⟩

/-- Where nothing but a tag can come next the first match is an end tag or else a start tag. -/
theorem first_token_of_open {r : List Char} (h : afterOther ('<' :: r) = none) : token.first ('<' :: r) =
    ((afterEndTag ('<' :: r)).map (matchOf "end" ('<' :: r))).orElse fun _ =>
      (StartTag.read? ('<' :: r)).map fun found => matchOf "tag" ('<' :: r) found.2 := by
  obtain ⟨hcomment, hcdata, hpi, htype⟩ := afterOther_eq_none_iff.mp h
  rw [first_token, hcomment, hcdata, hpi, htype]
  cases afterEndTag ('<' :: r) <;> cases StartTag.read? ('<' :: r) <;> rfl

/-- Where no bracket comes next the first match is a text. -/
theorem first_token_of_plain {c : Char} (hc : c ≠ '<') (t : List Char) :
    token.first (c :: t) = some (matchOf "text" (c :: t) ((c :: t).dropWhile (· != '<'))) := by
  have hafter (mark : List Char) : after? ('<' :: mark) (c :: t) = none := by
    cases hafter : after? ('<' :: mark) (c :: t) with
    | none => rfl
    | some rest => exact absurd (List.cons.inj (after?_eq_some_iff.mp hafter)).1 hc
  have hbetween (mark stop : List Char) : afterBetween ('<' :: mark) stop (c :: t) = none := by
    rw [afterBetween, hafter]
    rfl
  have hend : afterEndTag (c :: t) = none := by
    unfold afterEndTag
    split
    next heq => exact absurd (List.cons.inj heq).1 hc
    next => rfl
  have hopening : StartTag.read? (c :: t) = none := by
    unfold StartTag.read?
    split
    next heq => exact absurd (List.cons.inj heq).1 hc
    next => rfl
  have htype : (after? "<!DOCTYPE".toList (c :: t)).bind (afterType .outside) = none := by
    rw [show "<!DOCTYPE".toList = '<' :: "!DOCTYPE".toList from rfl, hafter]
    rfl
  rw [first_token, htype, hend, hopening, run_plain (bne_iff_ne.mpr hc)]
  rw [show "<!--".toList = '<' :: "!--".toList from rfl, show "<![CDATA[".toList = '<' :: "![CDATA[".toList from rfl,
    show "<?".toList = '<' :: "?".toList from rfl, hbetween, hbetween, hbetween]
  rfl

/-- What is read at a place is the first match of the expression for tokens. -/
theorem first_token_of_read? {found : Token} {rest : List Char} (h : Token.read? s = some (found, rest)) :
    ∃ kind ∈ kinds found, token.first s = some ⟨[(kind, found.text)], found.text, rest⟩ := by
  unfold Token.read? at h
  split at h
  next => cases h
  next r =>
    cases hother : afterOther ('<' :: r) with
    | some rest' =>
        rw [hother] at h
        cases h
        exact first_token_of_afterOther hother
    | none =>
        rw [hother] at h
        rw [first_token_of_open hother]
        cases hend : afterEndTag ('<' :: r) with
        | some rest' =>
            rw [hend] at h
            cases h
            exact ⟨"end", List.mem_singleton_self _, rfl⟩
        | none =>
            rw [hend] at h
            obtain ⟨⟨t, rest'⟩, hread, heq⟩ := Option.map_eq_some_iff.mp h
            cases heq
            have hpassed := passed_append t.text rest
            rw [← (StartTag.read?_eq_some hread).1] at hpassed
            refine ⟨"tag", List.mem_singleton_self _, ?_⟩
            rw [hread]
            simp only [Option.map_none, Option.map_some, Option.orElse_none, matchOf, hpassed]
            rfl
  next hnil hopen =>
    cases s with
    | nil => exact absurd rfl hnil
    | cons c t =>
        rw [List.span_eq_takeWhile_dropWhile] at h
        cases h
        rw [first_token_of_plain fun heq => hopen t (by rw [heq]), matchOf, passed_dropWhile]
        exact ⟨"text", by simp [kinds], rfl⟩

theorem first_token_eq_none (h : Token.read? s = none) : token.first s = none := by
  unfold Token.read? at h
  split at h
  next =>
    rw [first_token]
    rfl
  next r =>
    cases hother : afterOther ('<' :: r) with
    | some rest' =>
        rw [hother] at h
        cases h
    | none =>
        rw [hother] at h
        rw [first_token_of_open hother]
        cases hend : afterEndTag ('<' :: r) with
        | some rest' =>
            rw [hend] at h
            cases h
        | none =>
            rw [hend, Option.map_eq_none_iff] at h
            rw [h]
            rfl
  next => cases h

end Tokens

section Runs

/-- A document type is read up to the end that is found by the stages of the search. -/
theorem read?_docType (r : List Char) : Token.read? ("<!DOCTYPE".toList ++ r) =
    (afterType .outside r).map fun rest => (Token.other (Token.before ("<!DOCTYPE".toList ++ r) rest), rest) := by
  have hother : afterOther ("<!DOCTYPE".toList ++ r) = afterType .outside r := by
    have htype : after? "<!DOCTYPE".toList ("<!DOCTYPE".toList ++ r) = some r := after?_eq_some_iff.mpr rfl
    unfold afterOther
    rw [htype]
    rfl
  have hcons : "<!DOCTYPE".toList ++ r = '<' :: ("!DOCTYPE".toList ++ r) := rfl
  rw [hcons] at hother ⊢
  rw [Token.read?, hother]
  cases afterType .outside r <;> rfl

theorem text_ne_nil_of_read? {found : Token} {rest : List Char} (h : Token.read? s = some (found, rest)) :
    found.text ≠ [] := by
  intro hnil
  cases htype : after? "<!DOCTYPE".toList s with
  | none => exact (Token.found_of_read? h htype).text_ne_nil hnil
  | some r =>
      have hs := Token.read?_eq_some h
      rw [hnil, List.nil_append] at hs
      obtain rfl := after?_eq_some_iff.mp htype
      rw [read?_docType] at h
      obtain ⟨rest', hend, heq⟩ := Option.map_eq_some_iff.mp h
      obtain ⟨-, rfl⟩ := Prod.mk.inj heq
      have hlength := (Token.suffix_of_afterType hend).length_le
      rw [← hs, List.length_append, show "<!DOCTYPE".toList.length = 9 from rfl] at hlength
      omega

def IsMatch (m : Match) (found : Token) : Prop :=
  m.text = found.text ∧ ∃ kind ∈ kinds found, m.groups = [(kind, found.text)]

/-- Reading token by token is matching one behind the other, up to the place where there is nothing more to match. -/
theorem chainFrom_token {fuel : Nat} (hfuel : s.length ≤ fuel) :
    List.Forall₂ IsMatch (token.chainFrom (fuel + 1) s).1 (Token.listFrom fuel s).1 ∧
      (token.chainFrom (fuel + 1) s).2 = (Token.listFrom fuel s).2 ∧ Token.read? (Token.listFrom fuel s).2 = none := by
  induction fuel generalizing s with
  | zero =>
      obtain rfl := List.length_eq_zero_iff.mp (Nat.le_zero.mp hfuel)
      rw [chainFrom, first_token_eq_none rfl]
      exact ⟨.nil, rfl, rfl⟩
  | succ fuel ih =>
      rw [chainFrom, Token.listFrom]
      cases hread : Token.read? s with
      | none =>
          rw [first_token_eq_none hread]
          exact ⟨.nil, rfl, hread⟩
      | some step =>
          obtain ⟨found, rest⟩ := step
          obtain ⟨kind, hkind, hfirst⟩ := first_token_of_read? hread
          have hless : rest.length < s.length := by
            have hpos := List.length_pos_iff.mpr (text_ne_nil_of_read? hread)
            rw [Token.read?_eq_some hread, List.length_append]
            omega
          obtain ⟨hmatches, hrest, hend⟩ := ih (s := rest) (by omega)
          rw [hfirst]
          exact ⟨.cons ⟨rfl, kind, hkind, rfl⟩ hmatches, hrest, hend⟩

theorem text_ne_nil_of_mem_listFrom {fuel : Nat} {found : Token} (h : found ∈ (Token.listFrom fuel s).1) :
    found.text ≠ [] := by
  induction fuel generalizing s with
  | zero => cases h
  | succ fuel ih =>
      rw [Token.listFrom] at h
      cases hread : Token.read? s with
      | none =>
          rw [hread] at h
          cases h
      | some step =>
          obtain ⟨other, rest⟩ := step
          rw [hread] at h
          obtain rfl | h := List.mem_cons.mp h
          · exact text_ne_nil_of_read? hread
          · exact ih h

/-- What is told of a text whose markup cannot be read to its end: the line and the column behind the tokens. -/
theorem assignTokens_eq {o : Options} {around : Surroundings} {p : Progress}
    (h : (Token.list s).1.foldlM (Progress.step o around) {} = .ok p) : assignTokens s o around =
      if (Token.list s).2.isEmpty then .ok p
      else .error (.unexpectedMarkup (((Token.list s).1.flatMap Token.text).count '\n' + 1)
        ((((Token.list s).1.flatMap Token.text).reverse.takeWhile (· != '\n')).length + 1)) := by
  have htake : s.take (s.length - (Token.list s).2.length) = (Token.list s).1.flatMap Token.text := by
    have hpassed := passed_append ((Token.list s).1.flatMap Token.text) (Token.list s).2
    rwa [← Token.list_eq s] at hpassed
  unfold assignTokens
  rw [show Token.list s = ((Token.list s).1, (Token.list s).2) from rfl]
  dsimp only
  rw [h, Text.positionAt, htake, Text.start_advance]

end Runs

end MarkupIds.Xml.Expression

namespace MarkupIds.Xml

open MarkupIds.Text.Regex (Match)
open Expression (IsMatch finding)

/-- Taking a text apart into tokens ends and loses nothing. It is the matching of the expression for tokens one behind
the other, up to a place where that matches no more; the tokens are not empty and make up the text before that place,
and its line and column are told if it is not the end. The expressions for the parts of a start tag agree with it: every
start tag matches as a whole, and its attributes are found one behind the other with nothing left out. -/
theorem tokens_lossless (s : List Char) :
    List.Forall₂ IsMatch (Expression.token.chain s).1 (Token.list s).1 ∧
    (Expression.token.chain s).2 = (Token.list s).2 ∧
    Expression.token.first (Token.list s).2 = none ∧
    (∀ found ∈ (Token.list s).1, found.text ≠ []) ∧
    (Token.list s).1.flatMap Token.text ++ (Token.list s).2 = s ∧
    (∀ o around p, (Token.list s).1.foldlM (Progress.step o around) {} = .ok p → assignTokens s o around =
      if (Token.list s).2.isEmpty then .ok p
      else .error (.unexpectedMarkup (((Token.list s).1.flatMap Token.text).count '\n' + 1)
        ((((Token.list s).1.flatMap Token.text).reverse.takeWhile (· != '\n')).length + 1))) ∧
    ∀ t, .opening t ∈ (Token.list s).1 →
      Expression.tag.full t.text = some [("name", t.name), ("attrs", t.attributes.flatMap WrittenAttribute.text),
        ("tail", t.tail)] ∧
      Expression.attr.findAll (t.attributes.flatMap WrittenAttribute.text) = (t.attributes.map finding, []) ∧
      t.text = '<' :: (t.name ++ t.attributes.flatMap WrittenAttribute.text ++ t.tail) := by
  obtain ⟨hmatches, hrest, hend⟩ := Expression.chainFrom_token (Nat.le_refl s.length)
  refine ⟨hmatches, hrest, Expression.first_token_eq_none hend, ?_, (Token.list_eq s).symm, ?_, ?_⟩
  · exact fun found hfound => Expression.text_ne_nil_of_mem_listFrom hfound
  · exact fun o around p h => Expression.assignTokens_eq h
  · intro t ht
    have hproper := Token.proper_of_mem_listFrom ht
    exact ⟨Expression.full_tag hproper, Expression.findAll_attributes hproper.attributes, rfl⟩

/-- A bracket in a value does not end its tag, and a bracket that starts no token is told where it stands. -/
theorem tokens_lossless_quoted_bracket :
    let s := "<a b='x>y' />\n <".toList
    let t : StartTag := ⟨['a'], [⟨[' '], ['b'], ['='], '\'', ['x', '>', 'y']⟩], [' ', '/', '>']⟩
    let o : Options := { excluded := ["a"] }
    Token.list s = ([.opening t, .other ['\n', ' ']], ['<']) ∧
    (∃ p, (Token.list s).1.foldlM (Progress.step o {}) {} = .ok p ∧
      assignTokens s o {} = .error (.unexpectedMarkup 2 2)) ∧
    Expression.tag.full t.text = some [("name", ['a']), ("attrs", " b='x>y'".toList), ("tail", [' ', '/', '>'])] ∧
    Expression.attr.findAll " b='x>y'".toList = ([⟨[], " b='x>y'".toList, [("name", ['b']), ("quoted", "'x>y'".toList)]⟩], []) := by
  intro s t o
  have hlist : Token.list s = ([.opening t, .other ['\n', ' ']], ['<']) := by decide +kernel
  obtain ⟨p, hp⟩ : ∃ p, (Token.list s).1.foldlM (Progress.step o {}) {} = .ok p := by
    rw [hlist]
    exact ⟨_, rfl⟩
  obtain ⟨-, -, -, -, -, hfailure, hparts⟩ := tokens_lossless s
  obtain ⟨htag, hattr, -⟩ := hparts t (by rw [hlist]; exact List.mem_cons_self)
  have herror := hfailure o {} p hp
  rw [hlist] at herror
  exact ⟨hlist, ⟨p, hp, herror⟩, htag, hattr⟩

end MarkupIds.Xml
