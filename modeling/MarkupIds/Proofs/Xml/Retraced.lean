import MarkupIds.Proofs.Xml.Marks
import MarkupIds.Proofs.Xml.Undeclared
import MarkupIds.Proofs.Xml.Unjoined
import MarkupIds.Proofs.Xml.WrittenTag

/-! Whatever the reader of documents passes, the reader of tokens can pass as well, if the text is free of the
ogham space mark: it finds a token for every tag, with the same name, and nothing else that opens or
closes an element. -/

namespace MarkupIds.Xml

open MarkupIds.Markup (Mark Tag)

/-- The marks among some tokens, told by the names in the start tags. -/
def Token.names (tokens : List Token) : List (Mark String) :=
  (marks tokens).map (Mark.map fun t => String.ofList t.name)

/-- The marks among some pieces, told by the names in the start tags. -/
def Piece.names (pieces : List Piece) : List (Mark String) := (marks pieces).map (Mark.map Tag.written)

theorem Piece.names_append (a b : List Piece) : names (a ++ b) = names a ++ names b := by
  rw [names, marks_append, List.map_append]
  rfl

/-- Characters in front of a text make no mark. -/
theorem Tokenizes.pass_run {run s : List Char} {tokens : List Token} (hrun : '<' ∉ run) (h : Tokenizes s tokens) :
    ∃ tokens', Tokenizes (run ++ s) tokens' ∧ Token.names tokens' = Token.names tokens := by
  by_cases hne : run = []
  · exact ⟨tokens, hne ▸ h, rfl⟩
  have hplain : ∀ c ∈ run, (c != '<') = true := by
    intro c hc
    rw [bne_iff_ne]
    rintro rfl
    exact hrun hc
  have hbefore (hhead : ∀ c, s.head? = some c → c = '<') :
      ∃ tokens', Tokenizes (run ++ s) tokens' ∧ Token.names tokens' = Token.names tokens :=
    ⟨.other run :: tokens, .next (.text hne hplain hhead) h, rfl⟩
  cases h with
  | done => exact hbefore fun c hc => by cases hc
  | next found more =>
      cases found with
      | @aside start mark piece rest kind found =>
          obtain ⟨start', hstart⟩ := kind.start_eq
          obtain ⟨-, u, hu⟩ := Token.afterBetween_piece kind.bracket_not_mem found []
          refine hbefore fun c hc => ?_
          rw [hu, hstart] at hc
          exact (Option.some.inj hc).symm
      | type => exact hbefore fun c hc => (Option.some.inj hc).symm
      | closing => exact hbefore fun c hc => (Option.some.inj hc).symm
      | opening => exact hbefore fun c hc => (Option.some.inj hc).symm
      | @text raw rest ne plain ends =>
          refine ⟨.other (run ++ raw) :: _, .next ?_ more, rfl⟩
          rw [← List.append_assoc]
          exact .text (by simp [hne]) (fun c hc => (List.mem_append.mp hc).elim (hplain c) (plain c)) ends

/-- Pieces passed by the reader of documents, and tokens for all that has been passed. -/
structure Retraced (pieces : List Piece) (before after : List Char) : Prop where
  free : OghamFree after
  tokens : ∀ tokens, Tokenizes after tokens →
    ∃ tokens', Tokenizes before tokens' ∧ Token.names tokens' = Piece.names pieces ++ Token.names tokens

namespace Retraced

variable {pieces more : List Piece} {before middle after : List Char}

theorem refl (h : OghamFree before) : Retraced [] before before := ⟨h, fun tokens htokens => ⟨tokens, htokens, rfl⟩⟩

theorem append (h : Retraced pieces before middle) (h' : Retraced more middle after) :
    Retraced (pieces ++ more) before after := by
  refine ⟨h'.free, fun tokens htokens => ?_⟩
  obtain ⟨tokens₁, h₁, hnames₁⟩ := h'.tokens tokens htokens
  obtain ⟨tokens₂, h₂, hnames₂⟩ := h.tokens tokens₁ h₁
  exact ⟨tokens₂, h₂, by rw [hnames₂, hnames₁, Piece.names_append, List.append_assoc]⟩

theorem cons {piece : Piece} (h : Retraced [piece] before middle) (h' : Retraced more middle after) :
    Retraced (piece :: more) before after := h.append h'

theorem run {run : List Char} (hrun : '<' ∉ run) (hpieces : Piece.names pieces = []) (h : OghamFree (run ++ after)) :
    Retraced pieces (run ++ after) after := by
  refine ⟨h.pass_run hrun, fun tokens htokens => ?_⟩
  rw [hpieces]
  exact htokens.pass_run hrun

theorem aside {start mark : List Char} (haside : Token.Aside start mark)
    (hend : EndsAt (mark ++ ['>']) middle after) (hpieces : Piece.names pieces = []) (h : OghamFree (start ++ middle)) :
    Retraced pieces (start ++ middle) after := by
  refine ⟨h.of_aside haside hend, fun tokens htokens => ?_⟩
  obtain ⟨raw, hfound⟩ := Token.Found.of_endsAt haside hend
  exact ⟨.other raw :: tokens, .next hfound htokens, by rw [hpieces]; rfl⟩

theorem type {body : List Char} (hbody : ∀ c ∈ body, Token.isTypeChar c = true) (hpieces : Piece.names pieces = [])
    (h : OghamFree after) : Retraced pieces ("<!DOCTYPE".toList ++ (body ++ '>' :: after)) after :=
  ⟨h, fun tokens htokens => ⟨_, .next (.type after hbody) htokens, by rw [hpieces]; rfl⟩⟩

end Retraced

namespace Reading

variable {s t : State}

theorem section_retraced {piece : Piece} (h : characterSection s = .ok (piece, t))
    (hs : "<![CDATA[".toList.isPrefixOf s.rest = true) (hfree : OghamFree s.rest) :
    Retraced [piece] s.rest t.rest ∧ Piece.marks [piece] = [] := by
  obtain ⟨hend, kind, text, rfl⟩ := characterSection_eq_ok h
  rw [prefix_drop hs] at hfree ⊢
  exact ⟨.aside .characters hend rfl hfree, rfl⟩

theorem comment_retraced {piece : Piece} (h : comment s = .ok (piece, t)) (hs : "<!--".toList.isPrefixOf s.rest = true)
    (hfree : OghamFree s.rest) : Retraced [piece] s.rest t.rest ∧ Piece.marks [piece] = [] := by
  obtain ⟨hend, kind, text, rfl⟩ := comment_eq_ok h
  rw [prefix_drop hs] at hfree ⊢
  exact ⟨.aside .comment hend rfl hfree, rfl⟩

theorem instruction_retraced {piece : Piece} (h : instruction s = .ok (piece, t))
    (hs : ['<', '?'].isPrefixOf s.rest = true) (hfree : OghamFree s.rest) :
    Retraced [piece] s.rest t.rest ∧ Piece.marks [piece] = [] := by
  obtain ⟨hend, kind, text, rfl⟩ := instruction_eq_ok h
  rw [prefix_drop hs] at hfree ⊢
  exact ⟨.aside .instruction hend rfl hfree, rfl⟩

/-- A start tag that is read holds no ogham space mark outside of its values. -/
theorem oghamFree_of_startTag {outer : Scope} {tag : Tag} {e : Open} {closed : Bool} {y : List Char}
    (h : startTag outer s = .ok ((tag, e, closed), t)) (hs : s.rest = '<' :: y) (hfree : OghamFree s.rest) :
    oghamSpace ∉ inTag y ∧ OghamFree (behindTag y) := by
  obtain ⟨-, -, name, behind, rfl, hname, hne, -⟩ := startTag_eq_ok h hs
  cases name with
  | nil => exact absurd rfl hne
  | cons c name =>
      have hc := hname c List.mem_cons_self
      have hmarks : c ≠ '!' ∧ c ≠ '?' := by
        constructor <;>
          · rintro rfl
            exact absurd hc (by decide)
      rw [hs] at hfree
      exact hfree.of_tag hmarks.1 hmarks.2

theorem startTag_retraced {outer : Scope} {tag : Tag} {e : Open} {closed : Bool} {y : List Char}
    (h : startTag outer s = .ok ((tag, e, closed), t)) (hs : s.rest = '<' :: y) (hfree : OghamFree s.rest) :
    TagName e.fullName ∧ Retraced (if closed then [.opening tag, .closing] else [.opening tag]) s.rest t.rest := by
  obtain ⟨hogham, hbehind⟩ := oghamFree_of_startTag h hs hfree
  obtain ⟨htag, hwritten, hend, w, hw, htext, hwname, hempty⟩ := startTag_written h hs hogham
  refine ⟨htag, hend ▸ hbehind, fun tokens htokens => ⟨.opening w :: tokens, ?_, ?_⟩⟩
  · rw [htext]
    exact .next (.opening t.rest hw) htokens
  · cases closed <;>
      simp [Token.names, Token.marks, Piece.names, Piece.marks, Mark.map, hempty, hwname, hwritten]

theorem endTag_retraced {e : Open} {u : Unit} {y : List Char} (h : endTag e s = .ok (u, t))
    (hs : s.rest = '<' :: '/' :: y) (he : TagName e.fullName) (hfree : OghamFree s.rest) :
    Retraced [.closing] s.rest t.rest := by
  obtain ⟨hend, raw, hfound⟩ := endTag_written h hs he
  rw [hs] at hfree
  obtain ⟨-, hbehind⟩ := hfree.of_tag (by decide) (by decide)
  exact ⟨hend ▸ hbehind, fun tokens htokens => ⟨.closing raw :: tokens, .next hfound htokens, rfl⟩⟩

/-- All content is retraced, and it closes what is open. -/
theorem content_retraced {expand : Scope → List Char → List Char → Reading Unit}
    (hexpand : ∀ scope name text, Keeps (expand scope name text)) {outer : Scope} {fuel : Nat} {stack : List Open}
    {pieces : List Piece} (h : content expand false outer fuel stack s = .ok (pieces, t))
    (hstack : ∀ e ∈ stack, TagName e.fullName) (hfree : OghamFree s.rest) :
    Retraced pieces s.rest t.rest ∧ Mark.Nested stack.length (Piece.marks pieces) := by
  induction fuel generalizing s stack pieces with
  | zero => exact absurd h fail_eq_ok
  | succ fuel ih =>
      have hmore {x : Reading Piece} (hx : ∀ piece m, x s = .ok (piece, m) →
          Retraced [piece] s.rest m.rest ∧ Piece.marks [piece] = [])
          (h : (do
            let piece ← x
            return piece :: (← content expand false outer fuel stack) : Reading (List Piece)) s = .ok (pieces, t)) :
          Retraced pieces s.rest t.rest ∧ Mark.Nested stack.length (Piece.marks pieces) := by
        obtain ⟨piece, m, hpiece, h⟩ := bind_eq_ok.mp h
        obtain ⟨more, m', hmore, h⟩ := bind_eq_ok.mp h
        obtain ⟨rfl, rfl⟩ := pure_eq_ok.mp h
        obtain ⟨hretraced, hmarks⟩ := hx piece m hpiece
        obtain ⟨hgo, hnested⟩ := ih hmore hstack hretraced.free
        refine ⟨hretraced.cons hgo, ?_⟩
        rw [Piece.marks_cons, hmarks]
        exact hnested
      unfold content at h
      dsimp only at h
      obtain ⟨hempty, h⟩ | ⟨-, h⟩ := of_ite h
      · obtain ⟨rfl, rfl⟩ := pure_eq_ok.mp h
        have hnil : stack = [] := by simpa using hempty
        rw [hnil]
        exact ⟨.refl hfree, rfl⟩
      rw [bind_sees_apply] at h
      obtain ⟨hsection, h⟩ | ⟨-, h⟩ := of_ite h
      · exact hmore (fun piece m hpiece => section_retraced hpiece hsection hfree) h
      rw [bind_sees_apply] at h
      obtain ⟨hcomment, h⟩ | ⟨-, h⟩ := of_ite h
      · exact hmore (fun piece m hpiece => comment_retraced hpiece hcomment hfree) h
      rw [bind_remaining_apply] at h
      generalize hrest : s.rest = rest at h
      split at h
      next =>
        obtain ⟨rfl, rfl⟩ := pure_eq_ok.mp h
        rw [← hrest]
        exact ⟨.refl hfree, rfl⟩
      next => exact absurd h fail_eq_ok
      next r =>
        rw [← hrest]
        exact hmore (fun piece m hpiece => instruction_retraced hpiece (by rw [hrest]; rfl) hfree) h
      next => exact absurd h fail_eq_ok
      next r e stack =>
        obtain ⟨u, m, hclose, h⟩ := bind_eq_ok.mp h
        obtain ⟨more, m', hrun, h⟩ := bind_eq_ok.mp h
        obtain ⟨rfl, rfl⟩ := pure_eq_ok.mp h
        obtain ⟨he, hstack⟩ := List.forall_mem_cons.mp hstack
        have hfirst := endTag_retraced hclose hrest he hfree
        obtain ⟨hgo, hnested⟩ := ih hrun hstack hfirst.free
        rw [← hrest]
        exact ⟨hfirst.cons hgo, hnested⟩
      next r _ _ =>
        obtain ⟨⟨tag, e, closed⟩, m, htag, h⟩ := bind_eq_ok.mp h
        obtain ⟨hname, hfirst⟩ := startTag_retraced htag hrest hfree
        rw [← hrest]
        cases closed with
        | true =>
            obtain ⟨more, m', hrun, h⟩ := bind_eq_ok.mp h
            obtain ⟨rfl, rfl⟩ := pure_eq_ok.mp h
            obtain ⟨hgo, hnested⟩ := ih hrun hstack hfirst.free
            exact ⟨hfirst.append hgo, hnested⟩
        | false =>
            obtain ⟨more, m', hrun, h⟩ := bind_eq_ok.mp h
            obtain ⟨rfl, rfl⟩ := pure_eq_ok.mp h
            obtain ⟨hgo, hnested⟩ := ih hrun (List.forall_mem_cons.mpr ⟨hname, hstack⟩) hfirst.free
            exact ⟨hfirst.append hgo, hnested⟩
      next r _ _ =>
        rw [← hrest]
        refine hmore (fun piece m hpiece => ?_) h
        obtain ⟨⟨run, hrun, hnot⟩, hopening, hdepth⟩ := reference_eq_ok (hexpand _) hpiece hrest
        have hmarks : Piece.marks [piece] = [] := by
          cases piece with
          | opening tag => cases hopening
          | closing => cases hdepth 1
          | text kind content => rfl
          | reference => rfl
        rw [hrun] at hfree ⊢
        exact ⟨.run hnot (by rw [Piece.names, hmarks]; rfl) hfree, hmarks⟩
      next =>
        rw [← hrest]
        rw [bind_remaining_apply] at h
        obtain ⟨text, m, htext, h⟩ := bind_eq_ok.mp h
        obtain ⟨more, m', hrun, h⟩ := bind_eq_ok.mp h
        obtain ⟨rfl, rfl⟩ := pure_eq_ok.mp h
        obtain ⟨hpassed, hall, -⟩ := characterData_eq_ok (Nat.lt_succ_self _) htext
        have hnot : '<' ∉ text := fun hmem => absurd (hall _ hmem) (by decide)
        have hfirst : Retraced [.text .plain (unifyLines text)] s.rest m.rest := by
          rw [hpassed] at hfree ⊢
          exact .run hnot rfl hfree
        obtain ⟨hgo, hnested⟩ := ih hrun hstack hfirst.free
        exact ⟨hfirst.cons hgo, hnested⟩

theorem root_retraced {pieces : List Piece} {y : List Char} (h : root s = .ok (pieces, t)) (hs : s.rest = '<' :: y)
    (hfree : OghamFree s.rest) : Retraced pieces s.rest t.rest ∧ Mark.Nested 0 (Piece.marks pieces) := by
  unfold root at h
  obtain ⟨⟨tag, e, closed⟩, m, htag, h⟩ := bind_eq_ok.mp h
  obtain ⟨hname, hfirst⟩ := startTag_retraced htag hs hfree
  cases closed with
  | true =>
      obtain ⟨rfl, rfl⟩ := pure_eq_ok.mp h
      exact ⟨hfirst, rfl⟩
  | false =>
      dsimp only at h
      rw [if_neg Bool.false_ne_true, bind_docType_apply, bind_remaining_apply] at h
      obtain ⟨more, m', hcontent, h⟩ := bind_eq_ok.mp h
      obtain ⟨rfl, rfl⟩ := pure_eq_ok.mp h
      obtain ⟨hgo, hnested⟩ := content_retraced (keeps_entityContent _) hcontent (List.forall_mem_singleton.mpr hname)
        hfirst.free
      exact ⟨hfirst.append hgo, hnested⟩

theorem asides_retraced {fuel : Nat} {pieces : List Piece} (h : asides fuel s = .ok (pieces, t))
    (hfree : OghamFree s.rest) : Retraced pieces s.rest t.rest ∧ Piece.marks pieces = [] := by
  induction fuel generalizing s pieces with
  | zero =>
      obtain ⟨rfl, rfl⟩ := pure_eq_ok.mp h
      exact ⟨.refl hfree, rfl⟩
  | succ fuel ih =>
      rw [asides] at h
      obtain ⟨b, m, hspaces, h⟩ := bind_eq_ok.mp h
      obtain ⟨run, hrun, hblank, -⟩ := spaces_eq hspaces
      have hfirst : Retraced [] s.rest m.rest := by
        rw [hrun] at hfree ⊢
        exact .run (fun hmem => absurd (hblank _ hmem) (by decide)) rfl hfree
      have hmore {x : Reading Piece} (hx : ∀ piece m', x m = .ok (piece, m') →
          Retraced [piece] m.rest m'.rest ∧ Piece.marks [piece] = [])
          (h : (do
            let piece ← x
            return piece :: (← asides fuel) : Reading (List Piece)) m = .ok (pieces, t)) :
          Retraced pieces s.rest t.rest ∧ Piece.marks pieces = [] := by
        obtain ⟨piece, m', hpiece, h⟩ := bind_eq_ok.mp h
        obtain ⟨more, m₁, hrun, h⟩ := bind_eq_ok.mp h
        obtain ⟨rfl, rfl⟩ := pure_eq_ok.mp h
        obtain ⟨hretraced, hmarks⟩ := hx piece m' hpiece
        obtain ⟨hgo, hmarks'⟩ := ih hrun hretraced.free
        exact ⟨hfirst.append (hretraced.cons hgo), by rw [Piece.marks_cons, hmarks, hmarks']; rfl⟩
      rw [bind_sees_apply] at h
      obtain ⟨hinstruction, h⟩ | ⟨-, h⟩ := of_ite h
      · exact hmore (fun piece m' hpiece => instruction_retraced hpiece hinstruction hfirst.free) h
      rw [bind_sees_apply] at h
      obtain ⟨hcomment, h⟩ | ⟨-, h⟩ := of_ite h
      · exact hmore (fun piece m' hpiece => comment_retraced hpiece hcomment hfirst.free) h
      · obtain ⟨rfl, rfl⟩ := pure_eq_ok.mp h
        exact ⟨hfirst, rfl⟩

theorem allAsides_retraced {pieces : List Piece} (h : allAsides s = .ok (pieces, t)) (hfree : OghamFree s.rest) :
    Retraced pieces s.rest t.rest ∧ Piece.marks pieces = [] := by
  unfold allAsides at h
  rw [bind_remaining_apply] at h
  exact asides_retraced h hfree

theorem typed_retraced {pieces : List Piece} (h : typed s = .ok (pieces, t)) (hs : Undeclared s.docType)
    (hfree : OghamFree s.rest) : Retraced pieces s.rest t.rest ∧ Piece.marks pieces = [] ∧ Undeclared t.docType := by
  obtain ⟨hseen, piece, m, more, hpiece, hmore, rfl⟩ | ⟨-, rfl, rfl⟩ := typed_iff.mp h
  · have htext := prefix_drop hseen
    rw [htext] at hfree
    obtain ⟨body, rest, hbody, hplain, hrest⟩ := hfree.of_type
    rw [hbody] at htext
    obtain ⟨n, rfl⟩ := documentType_eq_ok hpiece
    have hm := (repeats_documentType hs htext hplain hpiece).undeclared hs
    have hfirst : Retraced [.text .doctype n] s.rest m.rest := by
      rw [htext, rest_of_documentType hpiece htext hplain]
      exact .type hplain rfl hrest
    obtain ⟨hgo, hnone⟩ := allAsides_retraced hmore hfirst.free
    exact ⟨hfirst.cons hgo, by rw [Piece.marks_cons, hnone]; rfl, Undeclaring.allAsides _ _ _ hm hmore⟩
  · exact ⟨.refl hfree, rfl, hs⟩

theorem body_retraced {pieces : List Piece} (h : body s = .ok (pieces, t)) (hs : Undeclared s.docType)
    (hfree : OghamFree s.rest) :
    Retraced pieces s.rest [] ∧ Mark.Nested 0 (Piece.marks pieces) ∧ Undeclared t.docType := by
  obtain ⟨before, m, lead, k, inner, l, after, hbefore, hlead, hopen, hroot, hafter, hempty, rfl⟩ := body_iff.mp h
  have hm := Undeclaring.allAsides _ _ _ hs hbefore
  obtain ⟨hbefore, hnone⟩ := allAsides_retraced hbefore hfree
  obtain ⟨hlead, hnone', hk⟩ := typed_retraced hlead hm hbefore.free
  have ht := Undeclaring.allAsides _ _ _ (Undeclaring.root _ _ _ hk hroot) hafter
  obtain ⟨hroot, hnested⟩ := root_retraced hroot (prefix_drop hopen) hlead.free
  obtain ⟨hafter, hnone''⟩ := allAsides_retraced hafter hroot.free
  rw [hempty] at hafter
  refine ⟨((hbefore.append hlead).append hroot).append hafter, ?_, ht⟩
  simpa [Piece.marks_append, hnone, hnone', hnone''] using hnested

/-- A document is retraced to its end, and declares nothing. -/
theorem document_retraced {pieces : List Piece} (h : document s = .ok (pieces, t)) (hs : Undeclared s.docType)
    (hfree : OghamFree s.rest) :
    Retraced pieces s.rest [] ∧ Mark.Nested 0 (Piece.marks pieces) ∧ Undeclared t.docType := by
  obtain ⟨-, m, ⟨hdeclared, hdeclaration⟩ | ⟨-, rfl⟩, hbody⟩ := document_iff.mp h
  · obtain ⟨y, hstart, hends⟩ := declaration_ends hdeclared hdeclaration
    have hfirst : Retraced [] s.rest m.rest := by
      rw [hstart] at hfree ⊢
      exact .aside .instruction hends rfl hfree
    obtain ⟨hgo, hnested⟩ := body_retraced hbody (Steady.declaration.undeclaring _ _ _ hs hdeclaration) hfirst.free
    exact ⟨hfirst.append hgo, hnested⟩
  · exact body_retraced hbody hs hfree

end Reading

theorem StartTag.isEmptyElement_joined (t : StartTag) : t.joined.isEmptyElement = t.isEmptyElement := by
  rw [Bool.eq_iff_iff, isEmptyElement, isEmptyElement, List.contains_iff_mem, List.contains_iff_mem]
  refine ⟨mem_of_mem_joinLineEnds, fun hmem => ?_⟩
  obtain hjoined | hreturn := mem_joinLineEnds_or hmem
  · exact hjoined
  · exact absurd hreturn (by decide)

theorem Token.marks_joined (tokens : List Token) :
    marks (tokens.map joined) = (marks tokens).map (Mark.map StartTag.joined) := by
  induction tokens with
  | nil => rfl
  | cons token tokens ih =>
      cases token with
      | opening tag =>
          simp only [List.map_cons, joined, marks, tag.isEmptyElement_joined]
          split <;> simp [Mark.map, ih]
      | closing raw => simp [joined, marks, Mark.map, ih]
      | other raw => exact ih

theorem Token.names_joined (tokens : List Token) : names (tokens.map joined) = names tokens := by
  rw [names, marks_joined, List.map_map]
  refine List.map_congr_left fun mark _ => ?_
  cases mark <;> rfl

/-- A text that is read has tokens for all of it; they and the pieces that are read agree on what opens and closes
elements. -/
theorem exists_tokenizes_of_read {source : List Char} {contents : Contents} (hfree : OghamFree source)
    (h : read source = .ok contents) :
    ∃ tokens, Tokenizes source tokens ∧ Token.names tokens = Piece.names contents.pieces ∧
      Mark.Nested 0 (Piece.marks contents.pieces) ∧ contents.declaresEntities = false := by
  obtain ⟨s, hdocument, hdeclares⟩ := exists_document_of_read h
  obtain ⟨hretraced, hnested, b, hundeclared⟩ := Reading.document_retraced hdocument ⟨false, rfl⟩ hfree.withoutMark.joined
  obtain ⟨joined, hjoined, hnames⟩ := hretraced.tokens [] .done
  obtain ⟨tokens, htokens, rfl⟩ := hjoined.unjoined
  rw [Token.names_joined] at hnames
  rw [hundeclared] at hdeclares
  obtain ⟨all, hall, hsame⟩ : ∃ all, Tokenizes source all ∧ Token.names all = Token.names tokens := by
    unfold withoutMark at htokens
    cases source with
    | nil => exact ⟨tokens, htokens, rfl⟩
    | cons c source =>
        dsimp only at htokens
        split at htokens
        next hmark =>
          have hrun : '<' ∉ [c] := fun hmem => by
            obtain rfl := List.mem_singleton.mp hmem
            exact absurd hmark (by decide)
          exact htokens.pass_run hrun
        next => exact ⟨tokens, htokens, rfl⟩
  exact ⟨all, hall, by rw [hsame, hnames]; exact List.append_nil _, hnested, hdeclares⟩

end MarkupIds.Xml
