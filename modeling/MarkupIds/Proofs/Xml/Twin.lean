import MarkupIds.Proofs.Xml.Again
import MarkupIds.Proofs.Xml.LineEnds
import MarkupIds.Proofs.Xml.Openings

/-! A text beside its twin: the tokens are the same, but some of the start tags have an attribute that is put
there. What a reader of documents passes in one of them it finds in the other. -/

namespace MarkupIds.Xml

open MarkupIds.Markup (escape)
open Reading (Next)

namespace WrittenAttribute

/-- An attribute for a text, behind a space. -/
def added (attr x : List Char) : WrittenAttribute := ⟨[' '], attr, ['='], '"', escape x⟩

end WrittenAttribute

namespace StartTag

/-- The tag with an attribute behind the others, in place of those of its name. -/
def put (t : StartTag) (attr x : List Char) : StartTag :=
  { t with attributes := (t.attributes.filter fun a => a.name != attr) ++ [.added attr x] }

end StartTag

section LineEnds

theorem head?_escape {x : List Char} (h : (escape x).head? = some '\n') : ∃ y, x = '\n' :: y := by
  cases x with
  | nil => cases h
  | cons c x =>
      rw [escape, List.flatMap_cons] at h
      unfold Markup.escapeChar at h
      split at h
      next => cases h
      next => cases h
      next => cases h
      next => cases h
      next =>
        obtain rfl := Option.some.inj h
        exact ⟨x, rfl⟩

theorem joinLineEnds_escape (x : List Char) : joinLineEnds (escape x) = escape (joinLineEnds x) := by
  induction x using joinLineEnds.induct with
  | case1 x ih =>
      change joinLineEnds ('\r' :: '\n' :: escape x) = '\n' :: escape (joinLineEnds x)
      rw [joinLineEnds, ih]
  | case2 c x hx ih =>
      have hparts : Parts (Markup.escapeChar c) (escape x) := by
        intro hfeed hlast
        obtain ⟨y, rfl⟩ := head?_escape hfeed
        unfold Markup.escapeChar at hlast
        split at hlast
        next => cases hlast
        next => cases hlast
        next => cases hlast
        next => cases hlast
        next => exact hx y (Option.some.inj hlast) rfl
      have hself : joinLineEnds (Markup.escapeChar c) = Markup.escapeChar c := by
        unfold Markup.escapeChar
        split
        next => rfl
        next => rfl
        next => rfl
        next => rfl
        next => exact joinLineEnds.eq_2 c [] fun y _ hy => List.cons_ne_nil _ y hy.symm
      change joinLineEnds (Markup.escapeChar c ++ escape x) = _
      rw [joinLineEnds_append hparts, hself, ih, joinLineEnds.eq_2 c x hx]
      rfl
  | case3 => rfl

theorem StartTag.joined_put (t : StartTag) (attr x : List Char) :
    (t.put attr x).joined = t.joined.put attr (joinLineEnds x) := by
  have hadded : (WrittenAttribute.added attr x).joined = .added attr (joinLineEnds x) := by
    rw [WrittenAttribute.added, WrittenAttribute.joined, joinLineEnds_escape]
    rfl
  simp only [joined, put, List.map_append, List.map_cons, List.map_nil, hadded, List.filter_map]
  rfl

end LineEnds

/-- A token, or a start tag in which an attribute is put. If the characters of the tag's name may stand in a
document, so may those of the attribute. -/
inductive Altered (attr : List Char) : Token → Token → Prop where
  | same (token : Token) : Altered attr token token
  | put {t : StartTag} {x : List Char}
      (readable : (∀ c ∈ t.name, isXmlChar c = true) → ∀ c ∈ x, isXmlChar c = true) :
      Altered attr (.opening t) (.opening (t.put attr x))

/-- The second text has the tokens of the first one, but for the attributes that are put in. -/
inductive Twin (attr : List Char) : List Char → List Char → Prop where
  | done : Twin attr [] []
  | next {s s' rest rest' : List Char} {token token' : Token} (altered : Altered attr token token')
      (found : Token.Found s token rest) (found' : Token.Found s' token' rest') (more : Twin attr rest rest') :
      Twin attr s s'

section Starts

/-- The name of a start tag begins with a character of its own. -/
theorem StartTag.Proper.exists_text {t : StartTag} (ht : t.Proper) :
    ∃ c name, t.name = c :: name ∧ c ≠ '!' ∧ c ≠ '?' ∧ ∃ r, t.text = '<' :: c :: r := by
  cases hname : t.name with
  | nil => exact absurd hname ht.name_ne
  | cons c name =>
      have hc := ht.name c (hname ▸ List.mem_cons_self)
      refine ⟨c, name, rfl, ?_, ?_, name ++ t.attributes.flatMap WrittenAttribute.text ++ t.tail, by
        simp [StartTag.text, hname]⟩ <;>
        · rintro rfl
          exact absurd hc (by decide)

end Starts

namespace Token.Found

variable {s rest : List Char} {token : Token}

/-- What begins with a bracket goes on beyond the closing one. -/
theorem bracket_mem (h : Found s token rest) (hopen : s.head? = some '<') : '>' ∈ token.text := by
  cases h with
  | aside kind found =>
      obtain ⟨-, u, hu⟩ := afterBetween_piece kind.bracket_not_mem found []
      rw [Token.text, hu]
      simp
  | type => simp [Token.text]
  | closing => simp [Token.text]
  | @opening t rest proper =>
      obtain ⟨blanks, -, htail⟩ := proper.tail
      obtain htail | htail := htail <;> simp [Token.text, StartTag.text, htail]
  | @text raw rest ne plain ends =>
      cases raw with
      | nil => exact absurd rfl ne
      | cons c raw =>
          obtain rfl := Option.some.inj hopen
          exact absurd (plain _ List.mem_cons_self) (by decide)

end Token.Found

namespace Altered

variable {attr : List Char} {token token' : Token}

theorem of_other {raw : List Char} (h : Altered attr (.other raw) token') : token' = .other raw := by
  cases h
  rfl

theorem of_closing {raw : List Char} (h : Altered attr (.closing raw) token') : token' = .closing raw := by
  cases h
  rfl

theorem joined (h : Altered attr token token') : Altered attr token.joined token'.joined := by
  cases h with
  | same => exact .same _
  | @put t x readable =>
      rw [Token.joined, Token.joined, StartTag.joined_put]
      exact .put fun hname c hc => readable hname c (mem_of_mem_joinLineEnds hc)

end Altered

namespace Twin

variable {attr s s' : List Char}

theorem of_tokenizes {tokens tokens' : List Token} (h : Tokenizes s tokens) (h' : Tokenizes s' tokens')
    (haltered : List.Forall₂ (Altered attr) tokens tokens') : Twin attr s s' := by
  induction haltered generalizing s s' with
  | nil =>
      cases h
      cases h'
      exact .done
  | cons hfirst _ ih =>
      cases h with
      | next found more =>
          cases h' with
          | next found' more' => exact .next hfirst found found' (ih more more')

theorem head?_eq (h : Twin attr s s') : s'.head? = s.head? := by
  cases h with
  | done => rfl
  | @next _ _ rest rest' token token' altered found found' more =>
      rw [found.text_eq, found'.text_eq]
      cases altered with
      | same =>
          cases htext : token.text with
          | nil => exact absurd htext found.text_ne_nil
          | cons c text => rfl
      | put => rfl

theorem share (h : Twin attr s s') : Next s s' := by
  have hhead := h.head?_eq
  cases s with
  | nil =>
      obtain rfl := List.head?_eq_none_iff.mp hhead
      exact .inl rfl
  | cons c s =>
      cases s' with
      | nil => cases hhead
      | cons d s' =>
          obtain rfl := Option.some.inj hhead
          exact .inr ⟨[], d, s, s', trivial, rfl, rfl⟩

theorem token {token : Token} {rest : List Char} (h : Twin attr s s') (hfound : Token.Found s token rest) :
    ∃ token' rest', Altered attr token token' ∧ Token.Found s' token' rest' ∧ Twin attr rest rest' := by
  cases h with
  | done => exact absurd hfound.length_lt (Nat.not_lt_zero _)
  | next altered found found' more =>
      obtain ⟨rfl, rfl⟩ := found.unique hfound
      exact ⟨_, _, altered, found', more⟩

/-- What is no tag stands in both texts. -/
theorem other {raw rest : List Char} (h : Twin attr s s') (hfound : Token.Found s (.other raw) rest) :
    ∃ rest', s' = raw ++ rest' ∧ Twin attr rest rest' := by
  obtain ⟨token', rest', haltered, hfound', hmore⟩ := h.token hfound
  obtain rfl := haltered.of_other
  exact ⟨rest', hfound'.text_eq, hmore⟩

/-- Text stands in both of them up to any place. -/
theorem run {run : List Char} (hrun : '<' ∉ run) (h : Twin attr (run ++ s) s') :
    ∃ r, s' = run ++ r ∧ Twin attr s r := by
  cases run with
  | nil => exact ⟨s', rfl, h⟩
  | cons c run =>
      have hc : c ≠ '<' := fun heq => hrun (heq ▸ List.mem_cons_self)
      generalize hall : c :: run ++ s = all at h
      cases h with
      | done => cases hall
      | @next _ _ rest rest' token token' altered found found' more =>
          cases found with
          | aside kind found =>
              obtain ⟨start', hstart⟩ := kind.start_eq
              obtain ⟨-, u, hu⟩ := Token.afterBetween_piece kind.bracket_not_mem found []
              rw [hu, hstart] at hall
              exact absurd (List.cons.inj hall).1 hc
          | type => exact absurd (List.cons.inj hall).1 hc
          | closing => exact absurd (List.cons.inj hall).1 hc
          | opening => exact absurd (List.cons.inj hall).1 hc
          | @text raw rest ne plain ends =>
              obtain rfl := altered.of_other
              have hs' := found'.text_eq
              rw [Token.text] at hs'
              obtain ⟨behind, hraw, hs⟩ | ⟨behind, hraw, hs⟩ := List.append_eq_append_iff.mp hall
              · rw [hraw, List.append_assoc] at hs'
                refine ⟨behind ++ rest', hs', ?_⟩
                by_cases hbehind : behind = []
                · rw [hs, hbehind]
                  exact more
                · have hplain : ∀ c ∈ behind, (c != '<') = true :=
                    fun d hd => plain d (hraw ▸ List.mem_append_right _ hd)
                  rw [hs]
                  refine .next (.same (.other behind)) (.text hbehind hplain ends) (.text hbehind hplain ?_) more
                  rw [more.head?_eq]
                  exact ends
              · -- the text that is found ends at a bracket or at the end, so it holds the whole run
                have hnil : behind = [] := by
                  cases behind with
                  | nil => rfl
                  | cons d behind =>
                      obtain rfl := ends d (by rw [hs]; rfl)
                      exact absurd (by rw [hraw]; simp) hrun
                rw [hnil, List.append_nil] at hraw
                rw [hnil, List.nil_append] at hs
                exact ⟨rest', by rw [hraw]; exact hs', hs ▸ more⟩

/-- A mark that opens no element is in front of both texts or of none. -/
theorem sees_eq {d : Char} {mark : List Char} (hd : d = '!' ∨ d = '?') (hmark : '>' ∉ d :: mark) (h : Twin attr s s') :
    ('<' :: d :: mark).isPrefixOf s' = ('<' :: d :: mark).isPrefixOf s := by
  have hhead := h.head?_eq
  cases h with
  | done => rfl
  | @next _ _ rest rest' token token' altered found found' more =>
      cases altered with
      | same =>
          by_cases hopen : s.head? = some '<'
          · have hmem := found.bracket_mem hopen
            rw [found.text_eq, found'.text_eq]
            refine (Share.of_mem (p := (· = '>')) rfl hmem rest rest').isPrefixOf_eq fun c hc => ?_
            rintro rfl
            obtain hfirst | hrest := List.mem_cons.mp hc
            · exact absurd hfirst (by decide)
            · exact hmark hrest
          · have hfalse {r : List Char} (hr : r.head? ≠ some '<') : ('<' :: d :: mark).isPrefixOf r = false := by
              cases r with
              | nil => rfl
              | cons c r => exact not_sees_bracket (fun heq => hr (congrArg some heq)) _ _
            rw [hfalse hopen, hfalse (hhead ▸ hopen)]
      | put =>
          have hname {t : StartTag} (ht : t.Proper) (r : List Char) :
              ('<' :: d :: mark).isPrefixOf (t.text ++ r) = false := by
            obtain ⟨c, name, -, hbang, hquestion, r', hr'⟩ := ht.exists_text
            rw [hr']
            refine not_sees_mark (fun heq => ?_) mark _
            obtain rfl | rfl := hd
            · exact hbang heq.symm
            · exact hquestion heq.symm
          rw [found.text_eq, found'.text_eq]
          exact (hname found'.proper rest').trans (hname found.proper rest).symm

theorem withoutMark (h : Twin attr s s') : Twin attr (Xml.withoutMark s) (Xml.withoutMark s') := by
  have hhead := h.head?_eq
  cases s with
  | nil =>
      obtain rfl := List.head?_eq_none_iff.mp hhead
      exact h
  | cons c s =>
      by_cases hmark : c.toNat = 0xFEFF
      · have hrun : '<' ∉ [c] := fun hmem => by
          obtain rfl := List.mem_singleton.mp hmem
          exact absurd hmark (by decide)
        obtain ⟨r, rfl, hr⟩ := h.run (s := s) hrun
        simpa [Xml.withoutMark, hmark] using hr
      · obtain ⟨r, rfl⟩ : ∃ r, s' = c :: r := ⟨_, Reading.cons_of_head? hhead⟩
        simpa [Xml.withoutMark, hmark] using h

theorem joined (h : Twin attr s s') : Twin attr (joinLineEnds s) (joinLineEnds s') := by
  induction h with
  | done => exact .done
  | next altered found found' more ih => exact .next altered.joined found.joined found'.joined ih

end Twin

end MarkupIds.Xml
