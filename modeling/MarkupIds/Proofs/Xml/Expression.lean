import MarkupIds.Proofs.Text.Regex
import MarkupIds.Proofs.Xml.Retoken

/-! The three regular expressions for the markup of a document: one for a token, one for the parts of a start tag and
one for an attribute. A start tag and an attribute match in one way at most, so all of them agree on where each part
of a tag ends. -/

namespace MarkupIds.Xml

open MarkupIds.Text (Regex isBlank after? cutAt cutBy span_append)
open MarkupIds.Text.Regex

namespace Expression

def anything : Regex := few (one fun _ => true)

def between (start stop : List Char) : Regex := text start ++ (anything ++ text stop)

def quoted : Regex := quotedBy '"' ||| quotedBy '\''

/-- An attribute behind white space; `name` and `quotes` say what is kept of its parts. -/
def attributeWith (name quotes : Regex → Regex) : Regex :=
  run1 isBlank ++ (name (run1 WrittenAttribute.isNameChar) ++ (many (one isBlank) ++
    (text ['='] ++ (many (one isBlank) ++ quotes quoted))))

/-- A start tag whose name is of some characters; `name`, `attributes` and `ending` say what is kept of its parts. -/
def tagWith (isNameChar : Char → Bool) (name attributes ending : Regex → Regex) : Regex :=
  text ['<'] ++ (name (run1 isNameChar) ++ (attributes (many (attributeWith id id)) ++ ending tail))

/-- A part of a document type: quotes and square brackets hide what would end it. -/
def typePart : Regex := one Token.isTypeChar ||| (quotedBy '"' ||| (quotedBy '\'' ||| between ['['] [']']))

def docType : Regex := text "<!DOCTYPE".toList ++ (many typePart ++ text ['>'])

def endTag : Regex := text ['<', '/'] ++ (run1 Token.isClosingChar ++ (many (one isBlank) ++ text ['>']))

def token : Regex :=
  group "comment" (between "<!--".toList "-->".toList) |||
    (group "cdata" (between "<![CDATA[".toList "]]>".toList) ||| (group "pi" (between "<?".toList "?>".toList) |||
      (group "doctype" docType ||| (group "end" endTag |||
        (group "tag" (tagWith StartTag.isNameChar id id id) ||| group "text" (run1 (· != '<')))))))

/-- A character that a start tag in parts takes for one of the name. -/
def isTagNameChar (c : Char) : Bool := !(isBlank c || c == '/' || c == '>')

def tag : Regex := tagWith isTagNameChar (group "name") (group "attrs") (group "tail")

def attr : Regex := attributeWith (group "name") (group "quoted")

variable {α : Type} {next : Groups → List Char → Option α} {g : Groups} {s : List Char}

/-- A way to keep what an expression passes: nothing of it, or a group of it. -/
def Keeps (keep : Regex → Regex) (kept : List Char → Groups) : Prop :=
  ∀ ⦃α : Type⦄ (r : Regex) (next : Groups → List Char → Option α) (g : Groups) (s : List Char),
    (keep r).run next g s = r.run (fun g' rest => next (g' ++ kept (passed s rest)) rest) g s

theorem keeps_id : Keeps id fun _ => [] := fun _ r next g s => by simp only [id, List.append_nil]

theorem keeps_group (name : String) : Keeps (group name) fun u => [(name, u)] := fun _ r _ _ _ => run_group name r

section Parts

theorem run_quoted_self {quote : Char} (hquote : quote = '"' ∨ quote = '\'') (t : List Char) :
    quoted.run next g (quote :: t) = (cutAt [quote] t).bind fun found => next g found.2 := by
  rw [quoted, run_or]
  obtain rfl | rfl := hquote
  · rw [run_quotedBy_self, run_quotedBy_of_ne (by decide)]
    cases (cutAt ['"'] t).bind fun found => next g found.2 <;> rfl
  · rw [run_quotedBy_of_ne (by decide), run_quotedBy_self]
    rfl

theorem run_quoted_of_ne {c : Char} (hc : ¬ (c = '"' ∨ c = '\'')) (t : List Char) : quoted.run next g (c :: t) = none := by
  obtain ⟨hdouble, hsingle⟩ := not_or.mp hc
  rw [quoted, run_or, run_quotedBy_of_ne (Ne.symm hdouble), run_quotedBy_of_ne (Ne.symm hsingle)]
  rfl

theorem not_quote_of_isBlank {c : Char} (hc : isBlank c = true) : ¬ (c = '"' ∨ c = '\'') := by
  rintro (rfl | rfl) <;> exact absurd hc (by decide)

theorem run_blanks_quoted {quotes : Regex → Regex} {kept : List Char → Groups} (hquotes : Keeps quotes kept) :
    (many (one isBlank) ++ quotes quoted).run next g s = (quotes quoted).run next g (s.dropWhile isBlank) := by
  rw [run_append, run_many_one fun g c t hc => ?_]
  rw [hquotes, run_quoted_of_ne (not_quote_of_isBlank hc)]

theorem run_keeps_run1 {keep : Regex → Regex} {kept : List Char → Groups} (hkeep : Keeps keep kept) {p : Char → Bool}
    (h : ∀ g c t, p c = true → next g (c :: t) = none) : (keep (run1 p)).run next g s =
      if (s.takeWhile p).isEmpty then none else next (g ++ kept (s.takeWhile p)) (s.dropWhile p) := by
  rw [hkeep, run_run1, passed_dropWhile]
  exact fun g c t hc => h _ c t hc

theorem run_attributeWith {name quotes : Regex → Regex} {keptName keptQuotes : List Char → Groups}
    (hname : Keeps name keptName) (hquotes : Keeps quotes keptQuotes) :
    (attributeWith name quotes).run next g s = (WrittenAttribute.read? s).bind fun found =>
      next (g ++ keptName found.1.name ++ keptQuotes (found.1.quote :: (found.1.value ++ [found.1.quote]))) found.2 := by
  have hlink {g : Groups} {c : Char} {t : List Char} (hc : WrittenAttribute.isNameChar c = true) :
      (many (one isBlank) ++ (text ['='] ++ (many (one isBlank) ++ quotes quoted))).run next g (c :: t) = none := by
    have hblank := WrittenAttribute.isBlank_of_isNameChar hc
    have hequals : '=' ≠ c := by
      rintro rfl
      exact absurd hc (by decide)
    rw [run_blanks_mark (by decide),
      List.dropWhile_cons_of_neg (by rw [hblank]; exact Bool.false_ne_true), run_char_of_ne hequals]
  have hnamed {g : Groups} {c : Char} {t : List Char} (hc : isBlank c = true) : (name (run1 WrittenAttribute.isNameChar) ++
      (many (one isBlank) ++ (text ['='] ++ (many (one isBlank) ++ quotes quoted)))).run next g (c :: t) = none := by
    have hnone : (c :: t).takeWhile WrittenAttribute.isNameChar = [] :=
      List.takeWhile_cons_of_neg (by rw [WrittenAttribute.isNameChar_of_isBlank hc]; exact Bool.false_ne_true)
    rw [run_append, run_keeps_run1 hname fun _ _ _ => hlink, hnone]
    rfl
  rw [attributeWith, run_append, run_run1 fun _ _ _ => hnamed]
  unfold WrittenAttribute.read?
  simp only [List.span_eq_takeWhile_dropWhile]
  cases hlead : (s.takeWhile isBlank).isEmpty with
  | true => rfl
  | false =>
      rw [if_neg Bool.false_ne_true, run_append, run_keeps_run1 hname fun _ _ _ => hlink, Bool.false_or]
      cases hempty : ((s.dropWhile isBlank).takeWhile WrittenAttribute.isNameChar).isEmpty with
      | true => rfl
      | false =>
          rw [if_neg Bool.false_ne_true, if_neg Bool.false_ne_true, run_blanks_mark (by decide)]
          split
          next r hr =>
            rw [hr, run_char_self, run_blanks_quoted hquotes]
            split
            next quote t ht =>
              rw [ht, hquotes]
              split
              next hquote =>
                rw [run_quoted_self (by simpa using hquote)]
                cases hcut : cutAt [quote] t with
                | none => rfl
                | some found =>
                    obtain ⟨value, rest⟩ := found
                    obtain ⟨rfl, -⟩ := Text.cutAt_singleton_iff.mp hcut
                    have hpassed : passed (quote :: (value ++ quote :: rest)) rest = quote :: (value ++ [quote]) := by
                      rw [List.append_cons, ← List.cons_append]
                      exact passed_append _ _
                    simp only [Option.bind_some, Option.map_some, hpassed]
              next hquote =>
                rw [run_quoted_of_ne (by simpa using hquote)]
                rfl
            next hnil =>
              rw [hnil, hquotes]
              rfl
          next hne =>
            generalize ((s.dropWhile isBlank).dropWhile WrittenAttribute.isNameChar).dropWhile isBlank = r at hne ⊢
            cases r with
            | nil => rfl
            | cons c r =>
                rw [run_char_of_ne fun heq => hne r (by rw [heq])]
                rfl

/-- The end of a start tag matches in one way at most, as it is read. -/
theorem run_tail {keep : Regex → Regex} {kept : List Char → Groups} (hkeep : Keeps keep kept) :
    (keep tail).run next g s = (StartTag.readTail? s).bind fun found => next (g ++ kept found.1) found.2 := by
  rw [hkeep, tail, run_append, run_many_one fun _ _ t hc => run_slash_close_of_isBlank hc t, run_slash_close]
  unfold StartTag.readTail?
  rw [List.span_eq_takeWhile_dropWhile]
  dsimp only
  have hs := List.takeWhile_append_dropWhile (p := isBlank) (l := s)
  split
  next rest hrest =>
    rw [hrest, List.append_cons] at hs
    rw [hrest]
    conv_lhs => rw [← hs, passed_append]
    rfl
  next rest hrest =>
    rw [hrest, List.append_cons, List.append_cons, List.append_assoc _ ['/']] at hs
    rw [hrest]
    conv_lhs => rw [← hs, passed_append]
    rfl
  next => simp

end Parts

section Tags

/-- Where a tag ends no attribute starts. -/
theorem readTail?_eq_none {found : WrittenAttribute × List Char} (h : WrittenAttribute.read? s = some found) :
    StartTag.readTail? s = none := by
  cases htail : StartTag.readTail? s with
  | none => rfl
  | some ending =>
      obtain ⟨ending, rest⟩ := ending
      rw [(StartTag.readTail?_eq_some htail).1, StartTag.read?_of_tail (StartTag.tail_of_readTail? htail)] at h
      cases h

/-- Attributes match up to the place where no more is read, if nothing can go on before one. -/
theorem run_many_attributes (h : ∀ g s found, WrittenAttribute.read? s = some found → next g s = none) {fuel : Nat}
    (hfuel : s.length ≤ fuel) :
    (many (attributeWith id id)).run next g s = next g (StartTag.readAttributes fuel s).2 := by
  induction fuel generalizing g s with
  | zero =>
      obtain rfl := List.length_eq_zero_iff.mp (Nat.le_zero.mp hfuel)
      rw [run_many, run_attributeWith keeps_id keeps_id]
      rfl
  | succ fuel ih =>
      rw [run_many, run_attributeWith keeps_id keeps_id, StartTag.readAttributes]
      cases hread : WrittenAttribute.read? s with
      | none => rfl
      | some found =>
          obtain ⟨a, rest⟩ := found
          have hless : rest.length < s.length := by
            obtain ⟨c, u, htext, -⟩ := (WrittenAttribute.proper_of_read? hread).head?_text
            have hlength := congrArg List.length (WrittenAttribute.read?_eq_some hread)
            rw [htext, List.length_append, List.length_cons] at hlength
            omega
          rw [Option.bind_some, again_of_lt hless, ih (by omega), List.append_nil, List.append_nil, h g s _ hread]
          dsimp only
          cases next g (StartTag.readAttributes fuel rest).2 <;> rfl

variable {name attributes ending : Regex → Regex} {keptName keptAttributes keptEnding : List Char → Groups}

theorem run_tagWith {p : Char → Bool} (hp : ∀ c, p c = true → isBlank c = false ∧ c ≠ '/' ∧ c ≠ '>')
    (hname : Keeps name keptName) (hattributes : Keeps attributes keptAttributes) (hending : Keeps ending keptEnding)
    (r : List Char) : (tagWith p name attributes ending).run next g ('<' :: r) =
      if (r.takeWhile p).isEmpty then none
      else
        let found := StartTag.readAttributes (r.dropWhile p).length (r.dropWhile p)
        (StartTag.readTail? found.2).bind fun last =>
          next (g ++ keptName (r.takeWhile p) ++ keptAttributes (found.1.flatMap WrittenAttribute.text) ++ keptEnding last.1)
            last.2 := by
  have hattr {g : Groups} {s : List Char} : (attributes (many (attributeWith id id)) ++ ending tail).run next g s =
      (StartTag.readTail? (StartTag.readAttributes s.length s).2).bind fun last =>
        next (g ++ keptAttributes ((StartTag.readAttributes s.length s).1.flatMap WrittenAttribute.text) ++
          keptEnding last.1) last.2 := by
    have hbefore (kept : List Char → Groups) (g : Groups) (s : List Char) (found : WrittenAttribute × List Char)
        (hread : WrittenAttribute.read? s = some found) : (ending tail).run next (g ++ kept s) s = none := by
      rw [run_tail hending, readTail?_eq_none hread]
      rfl
    have hpassed : passed s (StartTag.readAttributes s.length s).2 =
        (StartTag.readAttributes s.length s).1.flatMap WrittenAttribute.text := by
      have hsplit := passed_append ((StartTag.readAttributes s.length s).1.flatMap WrittenAttribute.text)
        (StartTag.readAttributes s.length s).2
      rwa [← StartTag.readAttributes_eq s.length s] at hsplit
    rw [run_append, hattributes, run_many_attributes (hbefore fun u => keptAttributes (passed s u)) (Nat.le_refl s.length),
      hpassed, run_tail hending]
  have hstop {g : Groups} {c : Char} {t : List Char} (hc : p c = true) :
      (attributes (many (attributeWith id id)) ++ ending tail).run next g (c :: t) = none := by
    obtain ⟨hblank, hslash, hclose⟩ := hp c hc
    have hblank : ¬ isBlank c = true := by rw [hblank]; exact Bool.false_ne_true
    have hread : WrittenAttribute.read? (c :: t) = none := by
      unfold WrittenAttribute.read?
      simp only [List.span_eq_takeWhile_dropWhile, List.takeWhile_cons_of_neg hblank, List.isEmpty_nil, Bool.true_or,
        if_true]
    have htail : StartTag.readTail? (c :: t) = none := by
      unfold StartTag.readTail?
      rw [List.span_eq_takeWhile_dropWhile, List.takeWhile_cons_of_neg hblank, List.dropWhile_cons_of_neg hblank]
      dsimp only
      split
      next heq => exact absurd (List.cons.inj heq).1 hclose
      next heq => exact absurd (List.cons.inj heq).1 hslash
      next => rfl
    rw [hattr, List.length_cons, StartTag.readAttributes, hread]
    dsimp only
    rw [htail]
    rfl
  rw [tagWith, run_append, run_char_self, run_append, run_keeps_run1 hname fun _ _ _ => hstop, hattr]

theorem isTagNameChar_eq_false {c : Char} (h : isBlank c = true ∨ c = '/' ∨ c = '>') : isTagNameChar c = false := by
  obtain hblank | rfl | rfl := h
  · simp [isTagNameChar, hblank]
  all_goals decide

theorem isTagNameChar_of_isNameChar {c : Char} (h : StartTag.isNameChar c = true) : isTagNameChar c = true := by
  simp only [StartTag.isNameChar, Bool.not_eq_true', Bool.or_eq_false_iff] at h
  simp [isTagNameChar, h.1.1.1.1, h.1.1.1.2, h.1.1.2]

/-- A start tag that was read matches as a whole, in its parts. -/
theorem full_tag {t : StartTag} (ht : t.Proper) : tag.full t.text =
    some [("name", t.name), ("attrs", t.attributes.flatMap WrittenAttribute.text), ("tail", t.tail)] := by
  have hsplit : t.text = '<' :: (t.name ++ (t.attributes.flatMap WrittenAttribute.text ++ (t.tail ++ []))) := by
    simp [StartTag.text]
  have hspan := span_append (p := isTagNameChar) (fun c hc => isTagNameChar_of_isNameChar (ht.name c hc))
    fun c hc => isTagNameChar_eq_false (ht.stop [] c hc)
  rw [List.span_eq_takeWhile_dropWhile, Prod.mk.injEq] at hspan
  have hp (c : Char) (hc : isTagNameChar c = true) : isBlank c = false ∧ c ≠ '/' ∧ c ≠ '>' := by
    simpa [isTagNameChar, and_assoc] using hc
  rw [full, hsplit, tag, run_tagWith hp (keeps_group _) (keeps_group _) (keeps_group _), hspan.1, hspan.2,
    if_neg (by simpa using ht.name_ne),
    StartTag.Proper.readAttributes_eq ht.attributes (ht.read?_tail []) (StartTag.Proper.length_le_attributes ht.attributes _)]
  dsimp only
  rw [ht.readTail?_eq []]
  rfl

def finding (a : WrittenAttribute) : Finding :=
  ⟨[], a.text, [("name", a.name), ("quoted", a.quote :: (a.value ++ [a.quote]))]⟩

/-- Attributes that were read are found one behind the other, with nothing left out. -/
theorem findAll_attributes {attributes : List WrittenAttribute} (h : ∀ a ∈ attributes, a.Proper) :
    attr.findAll (attributes.flatMap WrittenAttribute.text) = (attributes.map finding, []) := by
  suffices hfuel : ∀ fuel, attributes.length < fuel →
      attr.findFrom fuel (attributes.flatMap WrittenAttribute.text) = (attributes.map finding, []) by
    have hlength := StartTag.Proper.length_le_attributes h []
    rw [List.append_nil] at hlength
    exact hfuel _ (Nat.lt_succ_of_le hlength)
  induction attributes with
  | nil =>
      intro fuel hfuel
      obtain ⟨fuel, rfl⟩ : ∃ n, fuel = n + 1 := ⟨fuel - 1, by omega⟩
      have hnone : attr.first [] = none := by
        rw [first, attr, run_attributeWith (keeps_group _) (keeps_group _)]
        rfl
      rw [List.flatMap_nil, findFrom, search, hnone]
      rfl
  | cons a attributes ih =>
      intro fuel hfuel
      obtain ⟨ha, hrest⟩ := List.forall_mem_cons.mp h
      obtain ⟨fuel, rfl⟩ : ∃ n, fuel = n + 1 := ⟨fuel - 1, by omega⟩
      have hmatch (rest : List Char) : attr.search (a.text ++ rest) =
          some ([], ⟨[("name", a.name), ("quoted", a.quote :: (a.value ++ [a.quote]))], a.text, rest⟩) := by
        have hfirst : attr.first (a.text ++ rest) =
            some ⟨[("name", a.name), ("quoted", a.quote :: (a.value ++ [a.quote]))], a.text, rest⟩ := by
          rw [first, attr, run_attributeWith (keeps_group _) (keeps_group _), ha.read?_eq, Option.bind_some,
            passed_append]
          rfl
        obtain ⟨c, u, htext, -⟩ := ha.head?_text
        rw [htext, List.cons_append] at hfirst ⊢
        rw [search, hfirst]
      rw [List.flatMap_cons, findFrom, hmatch]
      dsimp only
      rw [ih hrest fuel (by rw [List.length_cons] at hfuel; omega)]
      rfl

end Tags

end Expression

end MarkupIds.Xml
