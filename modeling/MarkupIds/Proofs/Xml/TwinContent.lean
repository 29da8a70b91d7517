import MarkupIds.Proofs.Xml.Retraced
import MarkupIds.Proofs.Xml.TwinTag

/-! Content in a text and in its twin: it is read from piece to piece in both of them, and the two readings stay
abreast of one another. -/

namespace MarkupIds.Xml

namespace Reading

variable {α : Type} {s s' t : State} {attr : List Char}

/-- Two readings at the same place of a text and of its twin. -/
structure Abreast (attr : List Char) (s s' : State) : Prop where
  like : Like s s'
  twin : Twin attr s.rest s'.rest

namespace Abreast

/-- What passes a part of the text that stands in the twin as well is done again there. -/
theorem again {x : Nat → Reading α} {a : α} {q r : List Char} (h : Abreast attr s s') (hx : Repeats Next x s a t)
    (hs : s.rest = q ++ t.rest) (hs' : s'.rest = q ++ r) (htwin : Twin attr t.rest r) {k : Nat} (hk : s'.rest.length < k) :
    ∃ t', x k s' = .ok (a, t') ∧ t'.rest = r ∧ Abreast attr t t' := by
  obtain ⟨q', hq, hagain⟩ := hx
  obtain rfl := List.append_cancel_right (hq.symm.trans hs)
  rw [hs', List.length_append] at hk
  obtain ⟨t', ht', hrest, hlike⟩ := hagain k s' r (Nat.lt_of_le_of_lt (Nat.le_add_right _ _) hk) hs' htwin.share h.like
  exact ⟨t', ht', hrest, hlike, hrest ▸ htwin⟩

theorem run {x : Nat → Reading α} {a : α} {q : List Char} (h : Abreast attr s s') (hx : Repeats Next x s a t)
    (hs : s.rest = q ++ t.rest) (hq : '<' ∉ q) {k : Nat} (hk : s'.rest.length < k) :
    ∃ t', x k s' = .ok (a, t') ∧ s'.rest = q ++ t'.rest ∧ Abreast attr t t' := by
  obtain ⟨r, hs', htwin⟩ := (hs ▸ h.twin).run hq
  obtain ⟨t', ht', rfl, habreast⟩ := h.again hx hs hs' htwin hk
  exact ⟨t', ht', hs', habreast⟩

theorem aside {x : Reading α} {a : α} {raw : List Char} (h : Abreast attr s s') (hx : Repeats Next (fun _ => x) s a t)
    (hfound : Token.Found s.rest (.other raw) t.rest) :
    ∃ t', x s' = .ok (a, t') ∧ t'.rest.length < s'.rest.length ∧ Abreast attr t t' := by
  obtain ⟨r, hs', htwin⟩ := h.twin.other hfound
  obtain ⟨t', ht', hrest, habreast⟩ := h.again hx hfound.text_eq hs' htwin (Nat.lt_succ_self _)
  refine ⟨t', ht', ?_, habreast⟩
  have hpos := List.length_pos_iff.mpr hfound.text_ne_nil
  rw [Token.text] at hpos
  rw [hs', hrest, List.length_append]
  omega

theorem spaces {b : Bool} (h : Abreast attr s s') (hspaces : Reading.spaces s = .ok (b, t)) :
    ∃ t', Reading.spaces s' = .ok (b, t') ∧ Abreast attr t t' := by
  obtain ⟨run, hrun, hblank, -⟩ := spaces_eq hspaces
  have hnot : '<' ∉ run := fun hmem => absurd (hblank _ hmem) (by decide)
  obtain ⟨t', ht', -, habreast⟩ := h.run (Steady.spaces s b t h.like.undeclared hspaces) hrun hnot (Nat.lt_succ_self _)
  exact ⟨t', ht', habreast⟩

end Abreast

/-- An end tag that repeats the name of its element is read. -/
theorem endTag_of_text {e : Open} {blanks r : List Char} (hs : Undeclared s.docType)
    (hrest : s.rest = '<' :: '/' :: (e.fullName ++ (blanks ++ '>' :: r))) (hblanks : ∀ c ∈ blanks, isSpace c = true) :
    ∃ t, endTag e s = .ok ((), t) ∧ t.rest = r ∧ Like s t := by
  have hname : (s.advance 2).rest = e.fullName ++ (blanks ++ '>' :: r) := by
    rw [State.rest_advance, hrest]
    rfl
  obtain ⟨m, hwrong, hm, hlike⟩ : ∃ m, wrongName? e (s.advance 2) = .ok (none, m) ∧
      m.rest = blanks ++ '>' :: r ∧ Like s m := by
    unfold wrongName?
    rw [bind_get_apply]
    dsimp only
    rw [hname, List.drop_left, if_pos]
    · exact ⟨_, rfl, rfl, by simpa using hs, by simp, by simp, by simp [State.tone]⟩
    · rw [Bool.and_eq_true_iff]
      refine ⟨List.isPrefixOf_iff_prefix.mpr ⟨_, rfl⟩, ?_⟩
      cases blanks with
      | nil => rfl
      | cons c blanks =>
          dsimp only [List.cons_append]
          rw [hblanks c List.mem_cons_self, Bool.or_true]
  have hspaces : m.rest.takeWhile isSpace = blanks := by
    rw [hm]
    exact Text.takeWhile_append_eq hblanks fun c hc => by
      cases hc
      decide
  have hclose : (m.advance blanks.length).rest = ['>'] ++ r := by
    rw [State.rest_advance, hm, List.drop_left]
    rfl
  refine ⟨(m.advance blanks.length).advance 1, ?_, by rw [State.rest_advance, hclose]; rfl,
    hlike.trans ((Like.refl hlike.symm.undeclared).advance 0 blanks.length |>.advance 0 1)⟩
  unfold endTag
  rw [bind_skip_apply]
  refine bind_eq_ok.mpr ⟨none, m, hwrong, bind_eq_ok.mpr ⟨!blanks.isEmpty, m.advance blanks.length, ?_, ?_⟩⟩
  · exact bind_eq_ok.mpr ⟨blanks, _, takeWhile_eq_ok.mpr ⟨hspaces, by rw [hspaces]⟩, rfl⟩
  · refine bind_eq_ok.mpr ⟨(), _, expect_iff.mpr ⟨?_, rfl⟩, rfl⟩
    rw [hclose, State.rest_advance, hclose]
    rfl

/-- An end tag is read in the twin. -/
theorem Abreast.endTag {e e' : Open} {u : Unit} {y : List Char} (h : Abreast attr s s') (htag : endTag e s = .ok (u, t))
    (hs : s.rest = '<' :: '/' :: y) (he : TagName e.fullName) (hname : e'.fullName = e.fullName) :
    ∃ t', Reading.endTag e' s' = .ok ((), t') ∧ (∃ y', s'.rest = '<' :: '/' :: y') ∧ t'.rest.length < s'.rest.length ∧
      Abreast attr t t' := by
  obtain ⟨blanks, rfl, hblanks⟩ := endTag_text htag hs fun c hc => (he.2 c hc).1
  obtain ⟨-, raw, hfound⟩ := endTag_written htag hs he
  obtain ⟨token', r, haltered, hfound', htwin⟩ := h.twin.token hfound
  obtain rfl := haltered.of_closing
  have hraw : raw = '<' :: '/' :: (e.fullName ++ (blanks ++ ['>'])) := by
    refine (List.append_left_inj t.rest).mp ?_
    rw [← show s.rest = raw ++ t.rest from hfound.text_eq, hs]
    simp
  have hs' : s'.rest = '<' :: '/' :: (e'.fullName ++ (blanks ++ '>' :: r)) := by
    rw [hfound'.text_eq, Token.text, hraw, hname]
    simp
  obtain ⟨m, hm, hmrest, hlike⟩ := endTag_of_text h.like.undeclared hs hblanks
  obtain ⟨t', ht', hrest', hlike'⟩ := endTag_of_text h.like.symm.undeclared hs' hblanks
  obtain ⟨-, rfl⟩ := Prod.mk.inj (Except.ok.inj (hm.symm.trans htag))
  exact ⟨t', ht', ⟨_, hs'⟩, hrest' ▸ hfound'.length_lt, hlike.symm.trans (h.like.trans hlike'), hrest' ▸ htwin⟩

/-- A start tag is read in the twin. -/
theorem Abreast.startTag {outer : Scope} {tag : Markup.Tag} {e : Open} {closed : Bool} {y : List Char}
    (h : Abreast attr s s') (htag : startTag outer s = .ok ((tag, e, closed), t)) (hs : s.rest = '<' :: y)
    (hogham : oghamSpace ∉ inTag y) (hattr : isLocalName attr = true) (hxmlns : attr ≠ "xmlns".toList) :
    ∃ tag' e' t', Reading.startTag outer s' = .ok ((tag', e', closed), t') ∧ e'.fullName = e.fullName ∧ e'.scope = e.scope ∧
      (∃ c y', s'.rest = '<' :: c :: y' ∧ isNameChar c = true) ∧ t'.rest.length < s'.rest.length ∧ Abreast attr t t' := by
  obtain ⟨w, hfound, hchars, hread⟩ := startTag_standsIn htag hs hogham hattr hxmlns h.like
  obtain ⟨token', r, haltered, hfound', htwin⟩ := h.twin.token hfound
  obtain ⟨w', rfl, hin⟩ : ∃ w', token' = .opening w' ∧ StandsIn attr w w' := by
    cases haltered with
    | same => exact ⟨w, rfl, .inl rfl⟩
    | @put w x readable =>
        exact ⟨_, rfl, .inr ⟨x, readable fun c hc => isXmlChar_of_isNameChar (hchars c hc), rfl⟩⟩
  obtain ⟨tag', t', htag', rfl, hlike⟩ := hread w' r hin hfound'
  obtain ⟨c, name, hname, -, -, y', hy'⟩ := hfound'.proper.exists_text
  refine ⟨tag', _, t', htag', rfl, rfl, ⟨c, y' ++ t'.rest, ?_, ?_⟩, hfound'.length_lt, hlike, htwin⟩
  · rw [hfound'.text_eq, Token.text, hy']
    rfl
  · exact hchars c (hin.name_eq ▸ hname ▸ List.mem_cons_self)

/-- A reference is read in the twin. -/
theorem Abreast.reference {expand expand' : List Char → List Char → Reading Unit} {piece : Piece} {r : List Char}
    (hexpand : ∀ name text, Keeps (expand name text)) (h : Abreast attr s s')
    (hpiece : reference expand s = .ok (piece, t)) (hs : s.rest = '&' :: r) :
    (∃ run, s.rest = run ++ t.rest ∧ '<' ∉ run) ∧ ∃ t' r', Reading.reference expand' s' = .ok (piece, t') ∧
      s'.rest = '&' :: r' ∧ t'.rest.length < s'.rest.length ∧ Abreast attr t t' := by
  obtain ⟨⟨run, hrun, hnot⟩, -⟩ := reference_eq_ok hexpand hpiece hs
  obtain ⟨q, hq, hagain⟩ := repeats_reference h.like.undeclared hs hpiece
  obtain rfl := List.append_cancel_right (hrun.symm.trans hq)
  obtain ⟨r', hs', htwin⟩ := (hq ▸ h.twin).run hnot
  obtain ⟨t', hpiece', rfl, hlike⟩ := hagain s' r' hs' htwin.share h.like
  refine ⟨⟨_, hq, hnot⟩, t', _, hpiece', hs', ?_, hlike, htwin⟩
  rw [hs', List.length_append]
  exact Nat.lt_add_of_pos_left (Nat.succ_pos _)

/-- Text is read in the twin. -/
theorem Abreast.characterData {text : List Char} {c : Char} {r : List Char} (h : Abreast attr s s')
    (htext : characterData s.rest.length.succ s = .ok (text, t)) (hs : s.rest = c :: r) (hopen : c ≠ '<') (hamp : c ≠ '&') :
    (∃ run, s.rest = run ++ t.rest ∧ '<' ∉ run) ∧
      ∃ t' r', Reading.characterData s'.rest.length.succ s' = .ok (text, t') ∧
      s'.rest = c :: r' ∧ t'.rest.length < s'.rest.length ∧ Abreast attr t t' := by
  obtain ⟨hrest, hall, hends⟩ := characterData_eq_ok (Nat.lt_succ_self _) htext
  have hnot : '<' ∉ text := fun hmem => absurd (hall _ hmem) (by decide)
  obtain ⟨t', htext', hs', habreast⟩ :=
    h.run (repeats_characterData (Nat.lt_succ_self _) htext) hrest hnot (Nat.lt_succ_self _)
  refine ⟨⟨text, hrest, hnot⟩, ?_⟩
  cases text with
  | nil =>
      have hdata : isDataChar c = true := by simp [isDataChar, hopen, hamp]
      rw [hends c (by rw [← List.nil_append t.rest, ← hrest, hs]; rfl)] at hdata
      cases hdata
  | cons d text =>
      obtain rfl : c = d := (List.cons.inj (hs.symm.trans hrest)).1
      refine ⟨t', _, htext', hs', ?_, habreast⟩
      rw [hs', List.length_append]
      exact Nat.lt_add_of_pos_left (Nat.succ_pos _)

section Asides

theorem exists_found_section {piece : Piece} (h : characterSection s = .ok (piece, t))
    (hs : "<![CDATA[".toList.isPrefixOf s.rest = true) : ∃ raw, Token.Found s.rest (.other raw) t.rest := by
  obtain ⟨hend, -⟩ := characterSection_eq_ok h
  rw [prefix_drop hs]
  exact Token.Found.of_endsAt .characters hend

theorem exists_found_comment {piece : Piece} (h : comment s = .ok (piece, t)) (hs : "<!--".toList.isPrefixOf s.rest = true) :
    ∃ raw, Token.Found s.rest (.other raw) t.rest := by
  obtain ⟨hend, -⟩ := comment_eq_ok h
  rw [prefix_drop hs]
  exact Token.Found.of_endsAt .comment hend

theorem exists_found_instruction {piece : Piece} (h : instruction s = .ok (piece, t))
    (hs : ['<', '?'].isPrefixOf s.rest = true) : ∃ raw, Token.Found s.rest (.other raw) t.rest := by
  obtain ⟨hend, -⟩ := instruction_eq_ok h
  rw [prefix_drop hs]
  exact Token.Found.of_endsAt .instruction hend

end Asides

/-- Elements in the text and in the twin that are closed alike. -/
def Alike (e e' : Open) : Prop := e'.fullName = e.fullName ∧ e'.scope = e.scope

section Branches

variable {expand : Scope → List Char → List Char → Reading Unit} {outer : Scope} {fuel : Nat} {e : Open} {stack : List Open}
  {r : List Char}

theorem content_section (h : "<![CDATA[".toList.isPrefixOf s.rest = true) :
    content expand false outer (fuel + 1) (e :: stack) s = (do
      let piece ← characterSection
      return piece :: (← content expand false outer fuel (e :: stack)) : Reading (List Piece)) s := by
  rw [content]
  dsimp only
  rw [if_neg (by simp), bind_sees_apply, if_pos h]

theorem content_comment (hsection : "<![CDATA[".toList.isPrefixOf s.rest = false)
    (h : "<!--".toList.isPrefixOf s.rest = true) :
    content expand false outer (fuel + 1) (e :: stack) s = (do
      let piece ← comment
      return piece :: (← content expand false outer fuel (e :: stack)) : Reading (List Piece)) s := by
  rw [content]
  dsimp only
  rw [if_neg (by simp), bind_sees_apply, hsection, if_neg Bool.false_ne_true, bind_sees_apply, if_pos h]

theorem content_end {pieces : List Piece} (hs : s.rest = []) :
    content expand false outer (fuel + 1) (e :: stack) s ≠ .ok (pieces, t) := by
  have hsection : "<![CDATA[".toList.isPrefixOf s.rest = false := hs ▸ rfl
  have hcomment : "<!--".toList.isPrefixOf s.rest = false := hs ▸ rfl
  rw [content]
  dsimp only
  rw [if_neg (by simp), bind_sees_apply, hsection, if_neg Bool.false_ne_true, bind_sees_apply, hcomment,
    if_neg Bool.false_ne_true, bind_remaining_apply, hs]
  exact fail_eq_ok

theorem content_instruction (hs : s.rest = '<' :: '?' :: r) : content expand false outer (fuel + 1) (e :: stack) s = (do
      let piece ← instruction
      return piece :: (← content expand false outer fuel (e :: stack)) : Reading (List Piece)) s := by
  have hsection : "<![CDATA[".toList.isPrefixOf s.rest = false := hs ▸ rfl
  have hcomment : "<!--".toList.isPrefixOf s.rest = false := hs ▸ rfl
  rw [content]
  dsimp only
  rw [if_neg (by simp), bind_sees_apply, hsection, if_neg Bool.false_ne_true, bind_sees_apply, hcomment,
    if_neg Bool.false_ne_true, bind_remaining_apply, hs]
  rfl

theorem content_closing (hs : s.rest = '<' :: '/' :: r) : content expand false outer (fuel + 1) (e :: stack) s = (do
      endTag e
      return .closing :: (← content expand false outer fuel stack) : Reading (List Piece)) s := by
  have hsection : "<![CDATA[".toList.isPrefixOf s.rest = false := hs ▸ rfl
  have hcomment : "<!--".toList.isPrefixOf s.rest = false := hs ▸ rfl
  rw [content]
  dsimp only
  rw [if_neg (by simp), bind_sees_apply, hsection, if_neg Bool.false_ne_true, bind_sees_apply, hcomment,
    if_neg Bool.false_ne_true, bind_remaining_apply, hs]
  rfl

theorem content_reference (hs : s.rest = '&' :: r) : content expand false outer (fuel + 1) (e :: stack) s = (do
      let piece ← reference (expand e.scope)
      return piece :: (← content expand false outer fuel (e :: stack)) : Reading (List Piece)) s := by
  have hsection : "<![CDATA[".toList.isPrefixOf s.rest = false := hs ▸ rfl
  have hcomment : "<!--".toList.isPrefixOf s.rest = false := hs ▸ rfl
  rw [content]
  dsimp only
  rw [if_neg (by simp), bind_sees_apply, hsection, if_neg Bool.false_ne_true, bind_sees_apply, hcomment,
    if_neg Bool.false_ne_true, bind_remaining_apply, hs]
  rfl

theorem content_opening (hs : s.rest = '<' :: r) (hsection : "<![CDATA[".toList.isPrefixOf s.rest = false)
    (hcomment : "<!--".toList.isPrefixOf s.rest = false) (hquestion : r.head? ≠ some '?') (hslash : r.head? ≠ some '/') :
    content expand false outer (fuel + 1) (e :: stack) s = (do
      let found ← startTag e.scope
      if found.2.2 then return .opening found.1 :: .closing :: (← content expand false outer fuel (e :: stack))
      else return .opening found.1 :: (← content expand false outer fuel (found.2.1 :: e :: stack)) :
        Reading (List Piece)) s := by
  have hne {c : Char} {r' : List Char} (hc : r.head? ≠ some c) (h : s.rest = '<' :: c :: r') : False := by
    rw [hs] at h
    cases h
    exact hc rfl
  rw [content]
  dsimp only
  rw [if_neg (by simp), bind_sees_apply, hsection, if_neg Bool.false_ne_true, bind_sees_apply, hcomment,
    if_neg Bool.false_ne_true, bind_remaining_apply]
  generalize hst : e :: stack = st
  generalize s.rest = rest at hs hne
  split
  next => cases hst
  next => cases hs
  next => exact (hne hquestion rfl).elim
  next => exact (hne hslash rfl).elim
  next => exact (hne hslash rfl).elim
  next =>
    subst hst
    rfl
  next => cases hs
  next hnone _ _ _ _ _ => exact absurd hs (hnone _)

theorem content_text {c : Char} (hs : s.rest = c :: r) (hopen : c ≠ '<') (hamp : c ≠ '&') :
    content expand false outer (fuel + 1) (e :: stack) s = (do
      let text ← characterData s.rest.length.succ
      return .text .plain (unifyLines text) :: (← content expand false outer fuel (e :: stack)) : Reading (List Piece)) s := by
  have hsection : "<![CDATA[".toList.isPrefixOf s.rest = false := hs ▸ not_sees_bracket hopen _ _
  have hcomment : "<!--".toList.isPrefixOf s.rest = false := hs ▸ not_sees_bracket hopen _ _
  rw [content]
  dsimp only
  rw [if_neg (by simp), bind_sees_apply, hsection, if_neg Bool.false_ne_true, bind_sees_apply, hcomment,
    if_neg Bool.false_ne_true, bind_remaining_apply]
  generalize hst : e :: stack = st
  generalize hrest : s.rest = rest at hs ⊢
  split
  next => cases hst
  next => cases hs
  next => exact absurd (List.cons.inj hs).1.symm hopen
  next => exact absurd (List.cons.inj hs).1.symm hopen
  next => exact absurd (List.cons.inj hs).1.symm hopen
  next => exact absurd (List.cons.inj hs).1.symm hopen
  next => exact absurd (List.cons.inj hs).1.symm hamp
  next =>
    rw [bind_remaining_apply, hrest]

end Branches

/-- All content of the text is read in the twin. -/
theorem Abreast.content {expand : Scope → List Char → List Char → Reading Unit}
    (hexpand : ∀ scope name text, Keeps (expand scope name text)) (expand' : Scope → List Char → List Char → Reading Unit)
    (hattr : isLocalName attr = true) (hxmlns : attr ≠ "xmlns".toList) {outer : Scope}
    {fuel fuel' : Nat} {stack stack' : List Open} {pieces : List Piece}
    (habreast : Abreast attr s s') (h : content expand false outer fuel stack s = .ok (pieces, t))
    (hstack : ∀ e ∈ stack, TagName e.fullName) (hfree : OghamFree s.rest) (halike : List.Forall₂ Alike stack stack')
    (hfuel : s'.rest.length < fuel') :
    ∃ pieces' t', Reading.content expand' false outer fuel' stack' s' = .ok (pieces', t') ∧ Abreast attr t t' := by
  induction fuel generalizing s s' stack stack' pieces fuel' with
  | zero => exact absurd h fail_eq_ok
  | succ fuel ih =>
      obtain ⟨fuel', rfl⟩ : ∃ k, fuel' = k + 1 := ⟨fuel' - 1, by omega⟩
      cases halike with
      | nil =>
          unfold Reading.content at h
          obtain ⟨-, rfl⟩ := pure_eq_ok.mp h
          exact ⟨[], s', by unfold Reading.content; rfl, habreast⟩
      | @cons e e' stack stack' hfirst hothers =>
          have hlike := habreast.like.undeclared
          have hmore {x x' : Reading Piece} (hx : ∀ piece m, x s = .ok (piece, m) → OghamFree m.rest ∧
              ∃ m', x' s' = .ok (piece, m') ∧ m'.rest.length < s'.rest.length ∧ Abreast attr m m')
              (h : (do
                let piece ← x
                return piece :: (← Reading.content expand false outer fuel (e :: stack)) : Reading (List Piece)) s =
                  .ok (pieces, t)) :
              ∃ pieces' t', (do
                let piece ← x'
                return piece :: (← Reading.content expand' false outer fuel' (e' :: stack')) : Reading (List Piece)) s' =
                  .ok (pieces', t') ∧ Abreast attr t t' := by
            obtain ⟨piece, m, hpiece, h⟩ := bind_eq_ok.mp h
            obtain ⟨more, k, hcontent, h⟩ := bind_eq_ok.mp h
            obtain ⟨rfl, rfl⟩ := pure_eq_ok.mp h
            obtain ⟨hfree', m', hpiece', hlength, hm⟩ := hx piece m hpiece
            obtain ⟨more', t', hcontent', ht⟩ :=
              ih hm hcontent hstack hfree' (.cons hfirst hothers) (Nat.lt_of_lt_of_le hlength (Nat.le_of_lt_succ hfuel))
            exact ⟨_, t', bind_eq_ok.mpr ⟨piece, m', hpiece', bind_eq_ok.mpr ⟨more', t', hcontent', rfl⟩⟩, ht⟩
          have hsection : "<![CDATA[".toList.isPrefixOf s'.rest = "<![CDATA[".toList.isPrefixOf s.rest :=
            habreast.twin.sees_eq (.inl rfl) (by decide)
          have hcomment : "<!--".toList.isPrefixOf s'.rest = "<!--".toList.isPrefixOf s.rest :=
            habreast.twin.sees_eq (.inl rfl) (by decide)
          by_cases hseen : "<![CDATA[".toList.isPrefixOf s.rest = true
          · rw [content_section hseen] at h
            rw [content_section (hsection.trans hseen)]
            refine hmore (fun piece m hpiece => ?_) h
            obtain ⟨raw, hfound⟩ := exists_found_section hpiece hseen
            exact ⟨(section_retraced hpiece hseen hfree).1.free,
              habreast.aside (Steady.characterSection s piece m hlike hpiece) hfound⟩
          rw [Bool.not_eq_true] at hseen
          by_cases hdashes : "<!--".toList.isPrefixOf s.rest = true
          · rw [content_comment hseen hdashes] at h
            rw [content_comment (hsection.trans hseen) (hcomment.trans hdashes)]
            refine hmore (fun piece m hpiece => ?_) h
            obtain ⟨raw, hfound⟩ := exists_found_comment hpiece hdashes
            exact ⟨(comment_retraced hpiece hdashes hfree).1.free,
              habreast.aside (Steady.comment s piece m hlike hpiece) hfound⟩
          rw [Bool.not_eq_true] at hdashes
          cases hrest : s.rest with
          | nil => exact absurd h (content_end hrest)
          | cons c r =>
              by_cases hbracket : c = '<'
              · subst hbracket
                by_cases hquestion : r.head? = some '?'
                · have hrest := hrest.trans (congrArg ('<' :: ·) (cons_of_head? hquestion))
                  have hmark : ['<', '?'].isPrefixOf s.rest = true := hrest ▸ rfl
                  rw [content_instruction hrest] at h
                  rw [content_instruction (prefix_drop ((habreast.twin.sees_eq (.inr rfl) (by decide)).trans hmark))]
                  refine hmore (fun piece m hpiece => ?_) h
                  obtain ⟨raw, hfound⟩ := exists_found_instruction hpiece hmark
                  exact ⟨(instruction_retraced hpiece hmark hfree).1.free,
                    habreast.aside (Steady.instruction s piece m hlike hpiece) hfound⟩
                by_cases hslash : r.head? = some '/'
                · have hrest := hrest.trans (congrArg ('<' :: ·) (cons_of_head? hslash))
                  rw [content_closing hrest] at h
                  obtain ⟨u, m, htag, h⟩ := bind_eq_ok.mp h
                  obtain ⟨more, k, hcontent, h⟩ := bind_eq_ok.mp h
                  obtain ⟨rfl, rfl⟩ := pure_eq_ok.mp h
                  obtain ⟨he, hstack⟩ := List.forall_mem_cons.mp hstack
                  obtain ⟨m', htag', ⟨y', hs'⟩, hlength, hm⟩ := habreast.endTag htag hrest he hfirst.1
                  obtain ⟨more', t', hcontent', ht⟩ := ih hm hcontent hstack (endTag_retraced htag hrest he hfree).free hothers
                    (Nat.lt_of_lt_of_le hlength (Nat.le_of_lt_succ hfuel))
                  rw [content_closing hs']
                  exact ⟨_, t', bind_eq_ok.mpr ⟨(), m', htag', bind_eq_ok.mpr ⟨more', t', hcontent', rfl⟩⟩, ht⟩
                · rw [content_opening hrest hseen hdashes hquestion hslash] at h
                  obtain ⟨⟨tag, opened, closed⟩, m, htag, h⟩ := bind_eq_ok.mp h
                  obtain ⟨hogham, -⟩ := oghamFree_of_startTag htag hrest hfree
                  obtain ⟨hname, hretraced⟩ := startTag_retraced htag hrest hfree
                  obtain ⟨tag', opened', m', htag', hfull, hscope, ⟨c, y', hs', hc⟩, hlength, hm⟩ :=
                    habreast.startTag htag hrest hogham hattr hxmlns
                  have hlength := Nat.lt_of_lt_of_le hlength (Nat.le_of_lt_succ hfuel)
                  have hne {d : Char} (hd : isNameChar d = false) : (c :: y').head? ≠ some d := by
                    rintro ⟨⟩
                    rw [hc] at hd
                    cases hd
                  rw [content_opening hs' (hsection.trans hseen) (hcomment.trans hdashes) (hne (by decide)) (hne (by decide)),
                    hfirst.2]
                  cases closed with
                  | true =>
                      obtain ⟨more, k, hcontent, h⟩ := bind_eq_ok.mp h
                      obtain ⟨rfl, rfl⟩ := pure_eq_ok.mp h
                      obtain ⟨more', t', hcontent', ht⟩ := ih hm hcontent hstack hretraced.free (.cons hfirst hothers) hlength
                      exact ⟨_, t', bind_eq_ok.mpr ⟨_, m', htag', bind_eq_ok.mpr ⟨more', t', hcontent', rfl⟩⟩, ht⟩
                  | false =>
                      obtain ⟨more, k, hcontent, h⟩ := bind_eq_ok.mp h
                      obtain ⟨rfl, rfl⟩ := pure_eq_ok.mp h
                      obtain ⟨more', t', hcontent', ht⟩ := ih hm hcontent (List.forall_mem_cons.mpr ⟨hname, hstack⟩)
                        hretraced.free (.cons ⟨hfull, hscope⟩ (.cons hfirst hothers)) hlength
                      exact ⟨_, t', bind_eq_ok.mpr ⟨_, m', htag', bind_eq_ok.mpr ⟨more', t', hcontent', rfl⟩⟩, ht⟩
              by_cases hamp : c = '&'
              · subst hamp
                obtain ⟨y', hs'⟩ : ∃ y', s'.rest = '&' :: y' :=
                  ⟨_, cons_of_head? (habreast.twin.head?_eq.trans (by rw [hrest]; rfl))⟩
                rw [content_reference hrest] at h
                rw [content_reference hs']
                refine hmore (fun piece m hpiece => ?_) h
                obtain ⟨⟨run, hrun, hnot⟩, m', -, hpiece', -, hm⟩ := habreast.reference (hexpand _) hpiece hrest
                exact ⟨(hrun ▸ hfree).pass_run hnot, m', hpiece', hm⟩
              · rw [content_text hrest hbracket hamp] at h
                obtain ⟨text, m, htext, h⟩ := bind_eq_ok.mp h
                obtain ⟨more, k, hcontent, h⟩ := bind_eq_ok.mp h
                obtain ⟨rfl, rfl⟩ := pure_eq_ok.mp h
                obtain ⟨⟨run, hrun, hnot⟩, m', r', htext', hs', hlength, hm⟩ :=
                  habreast.characterData htext hrest hbracket hamp
                obtain ⟨more', t', hcontent', ht⟩ := ih hm hcontent hstack ((hrun ▸ hfree).pass_run hnot)
                  (.cons hfirst hothers) (Nat.lt_of_lt_of_le hlength (Nat.le_of_lt_succ hfuel))
                rw [content_text hs' hbracket hamp]
                exact ⟨_, t', bind_eq_ok.mpr ⟨text, m', htext', bind_eq_ok.mpr ⟨more', t', hcontent', rfl⟩⟩, ht⟩

end Reading

end MarkupIds.Xml
