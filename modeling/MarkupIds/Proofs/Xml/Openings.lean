import MarkupIds.Proofs.Xml.Aside
import MarkupIds.Proofs.Xml.Retoken
import MarkupIds.Proofs.Xml.Tag
import MarkupIds.Xml.Document

/-! The reader of documents goes along with the reader of tokens: where it passes a start tag there is one
among the tokens, and nowhere else. So a document has an element for every start tag among its tokens. -/

namespace MarkupIds.Xml

open MarkupIds.Text (isBlank)

section Tags

theorem bare_of_isBlank {run : List Char} (h : ∀ c ∈ run, isBlank c = true) : Bare run :=
  .of_all h (by decide) (by decide)

theorem WrittenAttribute.Proper.tagEnd {a : WrittenAttribute} (ha : a.Proper) {s rest : List Char}
    (h : TagEnd s rest) : TagEnd (a.text ++ s) rest := by
  obtain ⟨before, behind, hlink, hbefore, hbehind⟩ := ha.link
  have htext : a.text ++ s = (a.lead ++ a.name ++ before) ++
      '=' :: (behind ++ a.quote :: (a.value ++ a.quote :: s)) := by
    simp [text, hlink]
  have hname : Bare a.name := .of_all ha.name (by decide) (by decide)
  rw [htext]
  exact .value (((bare_of_isBlank ha.lead).append hname).append (bare_of_isBlank hbefore)) hbehind ha.quote
    ha.value h

theorem StartTag.Proper.tagEnd {t : StartTag} (ht : t.Proper) (hname : '=' ∉ t.name) (rest : List Char) :
    TagEnd (t.name ++ (t.attributes.flatMap WrittenAttribute.text ++ (t.tail ++ rest))) rest := by
  have htail : TagEnd (t.tail ++ rest) rest := by
    obtain ⟨blanks, hblanks, htail | htail⟩ := ht.tail
    · rw [htail, List.append_assoc]
      exact .close (bare_of_isBlank hblanks) rest
    · rw [htail, List.append_assoc]
      exact TagEnd.append (bare_of_isBlank hblanks) (.close bare_slash rest)
  have hattributes (attributes : List WrittenAttribute) (h : ∀ a ∈ attributes, a.Proper) :
      TagEnd (attributes.flatMap WrittenAttribute.text ++ (t.tail ++ rest)) rest := by
    induction attributes with
    | nil => exact htail
    | cons a attributes ih =>
        obtain ⟨ha, hrest⟩ := List.forall_mem_cons.mp h
        rw [List.flatMap_cons, List.append_assoc]
        exact ha.tagEnd (ih hrest)
  refine (hattributes _ ht.attributes).append fun c hc => ⟨?_, ?_⟩
  · rintro rfl
    exact hname hc
  · rintro rfl
    exact absurd (ht.name _ hc) (by decide)

end Tags

section Marks

/-- A mark that goes on with another character than the text. -/
theorem not_sees_mark {c d : Char} (h : c ≠ d) (mark r : List Char) :
    ('<' :: c :: mark).isPrefixOf ('<' :: d :: r) = false := by
  rw [← Bool.not_eq_true]
  intro hprefix
  obtain ⟨u, hu⟩ := List.isPrefixOf_iff_prefix.mp hprefix
  exact h (List.cons.inj (List.cons.inj hu).2).1

theorem not_sees_bracket {c : Char} (h : c ≠ '<') (mark r : List Char) : ('<' :: mark).isPrefixOf (c :: r) = false := by
  rw [← Bool.not_eq_true]
  intro hprefix
  obtain ⟨u, hu⟩ := List.isPrefixOf_iff_prefix.mp hprefix
  exact h (List.cons.inj hu).1.symm

end Marks

namespace Token

/-- The token is a start tag. -/
def isOpening : Token → Bool
  | opening _ => true
  | _ => false

variable {s rest : List Char} {token : Token}

theorem Found.unique {token' : Token} {rest' : List Char} (h : Found s token rest) (h' : Found s token' rest') :
    token = token' ∧ rest = rest' := by
  have heq := h.read?_eq.symm.trans h'.read?_eq
  cases heq
  exact ⟨rfl, rfl⟩

theorem Aside.second {start mark : List Char} (h : Aside start mark) :
    ∃ c start', start = '<' :: c :: start' ∧ (c = '!' ∨ c = '?') := by
  cases h with
  | comment => exact ⟨'!', _, rfl, .inl rfl⟩
  | characters => exact ⟨'!', _, rfl, .inl rfl⟩
  | instruction => exact ⟨'?', _, rfl, .inr rfl⟩

theorem Aside.ne_type {start mark : List Char} (h : Aside start mark) (s r : List Char) :
    start ++ s ≠ "<!DOCTYPE".toList ++ r := by
  cases h <;> simp

/-- A comment, an instruction or a section of character data is one token. -/
theorem Found.of_endsAt {start mark y : List Char} (kind : Aside start mark) (h : EndsAt (mark ++ ['>']) y rest) :
    ∃ raw, Found (start ++ y) (.other raw) rest := by
  obtain ⟨content, hcut⟩ := h
  have hpiece : start ++ y = (start ++ (content ++ (mark ++ ['>']))) ++ rest := by
    rw [Text.cutAt_eq_some hcut]
    simp
  refine ⟨start ++ (content ++ (mark ++ ['>'])), ?_⟩
  rw [hpiece]
  refine .aside kind ?_
  rw [← hpiece, afterBetween, Text.after?_eq_some_iff.mpr rfl, Option.bind_some, hcut]
  rfl

/-- What begins with a bracket goes by the next character. -/
theorem Found.of_bracket {c : Char} {y : List Char} (h : Found ('<' :: c :: y) token rest) :
    (c = '!' ∨ c = '?') ∨
      (c = '/' ∧ token.isOpening = false ∧ ∃ run, y = run ++ '>' :: rest ∧ '>' ∉ run) ∨
      ∃ t : StartTag, t.Proper ∧ token = .opening t ∧ '<' :: c :: y = t.text ++ rest := by
  generalize hs : '<' :: c :: y = s at h
  cases h with
  | @aside start mark piece rest kind found =>
      left
      obtain ⟨d, start', hstart, hd⟩ := kind.second
      obtain ⟨-, u, hu⟩ := afterBetween_piece kind.bracket_not_mem found []
      rw [hu, hstart] at hs
      cases hs
      exact hd
  | type =>
      left
      cases hs
      exact .inl rfl
  | @closing name blanks rest ne named blank =>
      right
      left
      obtain ⟨rfl, rfl⟩ := List.cons.inj (List.cons.inj hs).2
      refine ⟨rfl, rfl, name ++ blanks, by simp, fun hmem => ?_⟩
      obtain hmem | hmem := List.mem_append.mp hmem
      · exact absurd (named _ hmem) (by decide)
      · exact absurd (blank _ hmem) (by decide)
  | @opening t rest proper => exact .inr (.inr ⟨t, proper, rfl, rfl⟩)
  | @text raw rest ne plain ends =>
      cases raw with
      | nil => exact absurd rfl ne
      | cons d raw =>
          obtain ⟨rfl, -⟩ := List.cons.inj hs
          exact absurd (plain _ List.mem_cons_self) (by decide)

end Token

/-- `n` start tags are among the tokens of the text. -/
def Opens (s : List Char) (n : Nat) : Prop := ∃ tokens, Tokenizes s tokens ∧ tokens.countP Token.isOpening = n

namespace Opens

variable {s rest : List Char} {n : Nat}

theorem nil (h : Opens [] n) : n = 0 := by
  obtain ⟨tokens, htokens, rfl⟩ := h
  cases htokens with
  | done => rfl
  | next found more => exact absurd (List.append_eq_nil_iff.mp found.text_eq.symm).1 found.text_ne_nil

/-- A token with what follows it. -/
theorem split (h : Opens s n) (hne : s ≠ []) : ∃ token rest m, Token.Found s token rest ∧ Opens rest m ∧
    n = m + if token.isOpening then 1 else 0 := by
  obtain ⟨tokens, htokens, rfl⟩ := h
  cases htokens with
  | done => exact absurd rfl hne
  | next found more => exact ⟨_, _, _, found, ⟨_, more, rfl⟩, List.countP_cons⟩

theorem of_found {token : Token} (h : Opens s n) (hfound : Token.Found s token rest) :
    ∃ m, Opens rest m ∧ n = m + if token.isOpening then 1 else 0 := by
  have hne : s ≠ [] := fun hnil =>
    hfound.text_ne_nil (List.append_eq_nil_iff.mp (hfound.text_eq.symm.trans hnil)).1
  obtain ⟨token', rest', m, hfound', hopens, rfl⟩ := h.split hne
  obtain ⟨rfl, rfl⟩ := hfound.unique hfound'
  exact ⟨m, hopens, rfl⟩

/-- A character of a text is passed. -/
theorem pass {c : Char} (hc : c ≠ '<') (h : Opens (c :: s) n) : Opens s n := by
  obtain ⟨token, rest, m, hfound, hopens, rfl⟩ := h.split (List.cons_ne_nil _ _)
  generalize hs : c :: s = u at hfound
  cases hfound with
  | @aside start mark piece rest kind found =>
      obtain ⟨d, start', hstart, -⟩ := kind.second
      obtain ⟨-, v, hv⟩ := Token.afterBetween_piece kind.bracket_not_mem found []
      rw [hv, hstart] at hs
      cases hs
      exact absurd rfl hc
  | type rest plain =>
      cases hs
      exact absurd rfl hc
  | closing rest ne named blank =>
      cases hs
      exact absurd rfl hc
  | opening rest proper =>
      cases hs
      exact absurd rfl hc
  | @text raw rest ne plain ends =>
      cases raw with
      | nil => exact absurd rfl ne
      | cons d raw =>
          cases hs
          obtain ⟨tokens, htokens, hcount⟩ := hopens
          cases raw with
          | nil => exact ⟨tokens, htokens, hcount⟩
          | cons d raw =>
              refine ⟨_, .next (.text (List.cons_ne_nil d raw) (fun e he => plain e (List.mem_cons_of_mem _ he))
                ends) htokens, ?_⟩
              rw [List.countP_cons, hcount]
              rfl

theorem pass_run {run : List Char} (hrun : '<' ∉ run) (h : Opens (run ++ s) n) : Opens s n := by
  induction run with
  | nil => exact h
  | cons c run ih =>
      obtain ⟨hc, hrun⟩ := not_or.mp (mt List.mem_cons.mpr hrun)
      exact ih hrun (h.pass (Ne.symm hc))

/-- A comment, an instruction or a section of character data is passed. -/
theorem aside {start mark y : List Char} (kind : Token.Aside start mark) (h : Opens (start ++ y) n)
    (hend : EndsAt (mark ++ ['>']) y rest) : Opens rest n := by
  obtain ⟨raw, hfound⟩ := Token.Found.of_endsAt kind hend
  obtain ⟨m, hopens, rfl⟩ := h.of_found hfound
  exact hopens

/-- A document type is passed, if one comes next; nothing in it hides its end. -/
theorem of_type {r : List Char} (h : Opens ("<!DOCTYPE".toList ++ r) n) : ∃ body rest, r = body ++ '>' :: rest ∧
    (∀ c ∈ body, Token.isTypeChar c = true) ∧ Opens rest n := by
  obtain ⟨token, rest, m, hfound, hopens, rfl⟩ := h.split (List.cons_ne_nil _ _)
  generalize hs : "<!DOCTYPE".toList ++ r = u at hfound
  cases hfound with
  | @aside start mark piece rest kind found =>
      obtain ⟨-, v, hv⟩ := Token.afterBetween_piece kind.bracket_not_mem found []
      rw [hv, List.append_assoc] at hs
      exact absurd hs.symm (kind.ne_type _ _)
  | @type body rest plain => exact ⟨body, rest, List.append_cancel_left hs, plain, hopens⟩
  | closing rest ne named blank => cases hs
  | @opening tag rest proper =>
      cases hname : tag.name with
      | nil => exact absurd hname proper.name_ne
      | cons c name =>
          rw [StartTag.text, hname] at hs
          obtain rfl := (List.cons.inj (List.cons.inj hs).2).1
          exact absurd (proper.name _ (hname ▸ List.mem_cons_self)) (by decide)
  | @text raw rest ne plain ends =>
      cases raw with
      | nil => exact absurd rfl ne
      | cons c raw =>
          obtain rfl := (List.cons.inj hs).1
          exact absurd (plain _ List.mem_cons_self) (by decide)

/-- An end tag is passed. -/
theorem closing {run : List Char} (hrun : '>' ∉ run) (h : Opens ('<' :: '/' :: (run ++ '>' :: rest)) n) :
    Opens rest n := by
  obtain ⟨token, rest', m, hfound, hopens, rfl⟩ := h.split (List.cons_ne_nil _ _)
  obtain hmark | ⟨-, htoken, run', hy, hrun'⟩ | ⟨t, ht, rfl, htext⟩ := hfound.of_bracket
  · exact absurd hmark (by decide)
  · obtain ⟨-, -, rfl⟩ := TagEnd.eq_of_split (p := (· = '>')) (fun c hc heq => hrun (heq ▸ hc))
      (fun c hc heq => hrun' (heq ▸ hc)) rfl rfl hy
    rw [htoken]
    exact hopens
  · cases hname : t.name with
    | nil => exact absurd hname ht.name_ne
    | cons c name =>
        rw [StartTag.text, hname] at htext
        obtain rfl := (List.cons.inj (List.cons.inj htext).2).1
        exact absurd (ht.name _ (hname ▸ List.mem_cons_self)) (by decide)

/-- A start tag is passed where it ends, whatever stands in its values. -/
theorem opening {c : Char} {y name behind : List Char} (h : Opens ('<' :: c :: y) n) (hc : c ≠ '!' ∧ c ≠ '?' ∧ c ≠ '/')
    (hend : TagEnd (c :: y) rest) (hy : c :: y = name ++ behind) (hname : ∀ d ∈ name, isNameChar d = true)
    (hbehind : ∀ d, behind.head? = some d → d = '>' ∨ d = '/' ∨ isBlank d = true) :
    ∃ m, Opens rest m ∧ n = m + 1 := by
  obtain ⟨token, rest', m, hfound, hopens, rfl⟩ := h.split (List.cons_ne_nil _ _)
  obtain hmark | ⟨hslash, -⟩ | ⟨t, ht, rfl, htext⟩ := hfound.of_bracket
  · exact absurd hmark (not_or.mpr ⟨hc.1, hc.2.1⟩)
  · exact absurd hslash hc.2.2
  · have hwhole : c :: y = t.name ++ (t.attributes.flatMap WrittenAttribute.text ++ (t.tail ++ rest')) := by
      rw [StartTag.text] at htext
      rw [(List.cons.inj htext).2]
      simp
    -- the name of the token is a part of the name that was read
    have hequals : '=' ∉ t.name := by
      intro hmem
      obtain ⟨more, hmore, -⟩ | ⟨more, hmore, hrest⟩ := List.append_eq_append_iff.mp (hwhole.symm.trans hy)
      · exact absurd (hname '=' (hmore ▸ List.mem_append_left _ hmem)) (by decide)
      · cases more with
        | nil =>
            rw [List.append_nil] at hmore
            exact absurd (hname '=' (hmore ▸ hmem)) (by decide)
        | cons d more =>
            have hd : StartTag.isNameChar d = true := ht.name d (hmore ▸ by simp)
            obtain rfl | rfl | hblank := hbehind d (by rw [hrest]; rfl)
            · exact absurd hd (by decide)
            · exact absurd hd (by decide)
            · simp [StartTag.isNameChar, hblank] at hd
    have hends : TagEnd (c :: y) rest' := hwhole ▸ ht.tagEnd hequals rest'
    rw [hend.unique hends]
    exact ⟨m, hopens, rfl⟩

end Opens

end MarkupIds.Xml
