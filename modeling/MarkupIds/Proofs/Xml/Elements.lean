import MarkupIds.Proofs.Xml.Openings
import MarkupIds.Xml.Document
import MarkupIds.Markup.Tree

/-! A document that is read has an element for every start tag among its tokens. -/

namespace MarkupIds.Xml

namespace Piece

/-- The piece opens an element. -/
def isOpening : Piece → Bool
  | opening _ => true
  | _ => false

/-- The number of open elements behind a piece. -/
def depthAfter : Nat → Piece → Nat
  | depth, opening _ => depth + 1
  | depth, closing => depth - 1
  | depth, _ => depth

end Piece

namespace Reading

variable {s t : State}

/-- A character of text between tags and references. -/
def isDataChar (c : Char) : Bool := c != '<' && c != '&'

/-- Text is passed up to the next tag or reference. -/
theorem characterData_eq_ok {fuel : Nat} {text : List Char} (hfuel : s.rest.length < fuel)
    (h : characterData fuel s = .ok (text, t)) : Ran isDataChar text s.rest t.rest := by
  induction fuel generalizing s text with
  | zero => omega
  | succ fuel ih =>
      rw [characterData, bind_remaining_apply] at h
      have hstop (hends : ∀ c, s.rest.head? = some c → isDataChar c = false)
          (h : (pure [] : Reading (List Char)) s = .ok (text, t)) : Ran isDataChar text s.rest t.rest := by
        obtain ⟨rfl, rfl⟩ := pure_eq_ok.mp h
        exact ran_nil hends
      generalize hrest : s.rest = rest at h
      rw [hrest] at hstop
      split at h
      next => exact hstop (fun c hc => by cases hc) h
      next => exact hstop (fun c hc => by cases hc; rfl) h
      next => exact hstop (fun c hc => by cases hc; rfl) h
      next => exact absurd h fail_eq_ok
      next c r hbracket hand _ =>
        obtain ⟨-, h⟩ | ⟨-, h⟩ := of_ite h
        · exact absurd h fail_eq_ok
        obtain ⟨-, h⟩ | ⟨-, h⟩ := of_ite h
        · rw [bind_skip_apply] at h
          obtain ⟨more, m, hmore, h⟩ := bind_eq_ok.mp h
          obtain ⟨rfl, rfl⟩ := pure_eq_ok.mp h
          have hpast : (s.advance 1).rest = r := by rw [State.rest_advance, hrest]; rfl
          rw [hrest, List.length_cons] at hfuel
          obtain ⟨htext, hall, hends⟩ := ih (by rw [hpast]; omega) hmore
          have hc : isDataChar c = true := by
            simp only [isDataChar, Bool.and_eq_true, bne_iff_ne]
            exact ⟨hbracket, hand⟩
          exact ⟨by rw [← hpast, htext]; rfl, List.forall_mem_cons.mpr ⟨hc, hall⟩, hends⟩
        · exact absurd h fail_eq_ok

theorem reference_eq_ok {expand : List Char → List Char → Reading Unit} (hexpand : ∀ name text, Keeps (expand name text))
    {piece : Piece} {r : List Char} (h : reference expand s = .ok (piece, t)) (hs : s.rest = '&' :: r) :
    (∃ run, s.rest = run ++ t.rest ∧ '<' ∉ run) ∧ piece.isOpening = false ∧ ∀ d, piece.depthAfter d = d := by
  have hquiet {m : State} (h : ∃ run, s.rest = run ++ m.rest ∧ run ≠ [] ∧ Quiet run) :
      ∃ run, s.rest = run ++ m.rest ∧ '<' ∉ run := by
    obtain ⟨run, hrun, -, hquiet⟩ := h
    exact ⟨run, hrun, fun hmem => (hquiet _ hmem).1 rfl⟩
  unfold reference at h
  rw [bind_remaining_apply] at h
  generalize hrest : s.rest = rest at h
  rw [← hrest]
  split at h
  next =>
    obtain ⟨c, m, hcharacter, h⟩ := bind_eq_ok.mp h
    obtain ⟨rfl, rfl⟩ := pure_eq_ok.mp h
    exact ⟨hquiet (characterReference_eq_ok hcharacter hrest), rfl, fun _ => rfl⟩
  next =>
    obtain ⟨n, m, hentity, h⟩ := bind_eq_ok.mp h
    have hrun := hquiet (entityReference_eq_ok hentity hs)
    cases hplain : plainEntity? n with
    | some c =>
        simp only [hplain] at h
        obtain ⟨rfl, rfl⟩ := pure_eq_ok.mp h
        exact ⟨hrun, rfl, fun _ => rfl⟩
    | none =>
        simp only [hplain] at h
        obtain ⟨declared, m₁, hdeclared, h⟩ := bind_eq_ok.mp h
        rw [← Keeps.lookUp _ _ _ _ _ hdeclared] at hrun
        cases declared with
        | none =>
            obtain ⟨rfl, rfl⟩ := pure_eq_ok.mp h
            exact ⟨hrun, rfl, fun _ => rfl⟩
        | some e =>
            have hread {x : Reading Unit} (hx : Keeps x) (h : (x >>= fun _ => pure .reference : Reading Piece) m₁ =
                .ok (piece, t)) :
                (∃ run, s.rest = run ++ t.rest ∧ '<' ∉ run) ∧ piece.isOpening = false ∧ ∀ d, piece.depthAfter d = d := by
              obtain ⟨u, m₂, hread, h⟩ := bind_eq_ok.mp h
              obtain ⟨rfl, rfl⟩ := pure_eq_ok.mp h
              rw [← hx _ _ _ hread] at hrun
              exact ⟨hrun, rfl, fun _ => rfl⟩
            obtain ⟨name, meaning, isRead⟩ := e
            cases meaning with
            | inside text =>
                cases isRead with
                | false =>
                    exact hread (x := do
                      expand n text
                      declare fun d => d.updateEntity n fun e => { e with isRead := true })
                      ((hexpand n text).bind fun _ => Keeps.declare _) (bind_eq_ok.mpr <| by
                        obtain ⟨u, m₂, hfirst, h⟩ := bind_eq_ok.mp h
                        exact ⟨(), _, bind_eq_ok.mpr ⟨u, m₂, hfirst, rfl⟩, h⟩)
                | true => exact hread (Keeps.pure ()) h
            | outside => exact hread (Keeps.pure ()) h
            | unparsed => exact hread (Keeps.pure ()) h

/-- What content has passed: start tags, by pieces and by tokens, and the end tags for all open elements. -/
structure Passed (depth : Nat) (pieces : List Piece) (before after : List Char) : Prop where
  opens : ∀ n, Opens before n → ∃ m, Opens after m ∧ n = m + pieces.countP Piece.isOpening
  closes : pieces.foldl Piece.depthAfter depth = 0

namespace Passed

variable {depth : Nat} {pieces : List Piece} {piece : Piece} {before middle after : List Char}

theorem nil (rest : List Char) : Passed 0 [] rest rest := ⟨fun n hn => ⟨n, hn, rfl⟩, rfl⟩

theorem cons {further : Nat} (h : Passed further pieces middle after) (hdepth : piece.depthAfter depth = further)
    (hopens : ∀ n, Opens before n → ∃ m, Opens middle m ∧ n = m + if piece.isOpening then 1 else 0) :
    Passed depth (piece :: pieces) before after := by
  refine ⟨fun n hn => ?_, by rw [List.foldl_cons, hdepth]; exact h.closes⟩
  obtain ⟨m, hm, rfl⟩ := hopens n hn
  obtain ⟨k, hk, rfl⟩ := h.opens m hm
  exact ⟨k, hk, by rw [List.countP_cons, Nat.add_assoc]⟩

/-- A piece that is neither end of an element. -/
theorem aside (h : Passed depth pieces middle after) (hpiece : piece.isOpening = false)
    (hdepth : ∀ d, piece.depthAfter d = d) (hopens : ∀ n, Opens before n → Opens middle n) :
    Passed depth (piece :: pieces) before after := by
  refine h.cons (hdepth _) fun n hn => ⟨n, hopens n hn, ?_⟩
  rw [hpiece]
  rfl

theorem text {kind : Markup.TextKind} {content : List Char} (h : Passed depth pieces middle after)
    (hopens : ∀ n, Opens before n → Opens middle n) : Passed depth (.text kind content :: pieces) before after :=
  h.aside rfl (fun _ => rfl) hopens

end Passed

theorem prefix_drop {mark rest : List Char} (h : mark.isPrefixOf rest = true) : rest = mark ++ rest.drop mark.length := by
  obtain ⟨after, rfl⟩ := List.isPrefixOf_iff_prefix.mp h
  rw [List.drop_left]

theorem opens_section {piece : Piece} (h : characterSection s = .ok (piece, t))
    (hs : "<![CDATA[".toList.isPrefixOf s.rest = true) (n : Nat) (hn : Opens s.rest n) : Opens t.rest n := by
  rw [prefix_drop hs] at hn
  exact hn.aside .characters (characterSection_eq_ok h).1

theorem opens_comment {piece : Piece} (h : comment s = .ok (piece, t)) (hs : "<!--".toList.isPrefixOf s.rest = true)
    (n : Nat) (hn : Opens s.rest n) : Opens t.rest n := by
  rw [prefix_drop hs] at hn
  exact hn.aside .comment (comment_eq_ok h).1

theorem opens_instruction {piece : Piece} (h : instruction s = .ok (piece, t))
    (hs : ['<', '?'].isPrefixOf s.rest = true) (n : Nat) (hn : Opens s.rest n) : Opens t.rest n := by
  rw [prefix_drop hs] at hn
  exact hn.aside .instruction (instruction_eq_ok h).1

theorem opens_startTag {outer : Scope} {tag : Markup.Tag} {e : Open} {closed : Bool} {y : List Char}
    (h : startTag outer s = .ok ((tag, e, closed), t)) (hs : s.rest = '<' :: y) (n : Nat) (hn : Opens s.rest n) :
    ∃ m, Opens t.rest m ∧ n = m + 1 := by
  obtain ⟨hend, -, name, behind, hy, hname, hne, hbehind⟩ := startTag_eq_ok h hs
  cases name with
  | nil => exact absurd rfl hne
  | cons c name =>
      rw [hs, hy] at hn
      rw [hy] at hend
      have hc := hname c List.mem_cons_self
      refine hn.opening ⟨?_, ?_, ?_⟩ hend rfl hname hbehind
      all_goals
        rintro rfl
        exact absurd hc (by decide)

/-- Content is passed in step with the tokens. -/
theorem content_eq_ok {expand : Scope → List Char → List Char → Reading Unit}
    (hexpand : ∀ scope name text, Keeps (expand scope name text)) {outer : Scope} {fuel : Nat} {stack : List Open}
    {pieces : List Piece} (h : content expand false outer fuel stack s = .ok (pieces, t))
    (hstack : ∀ e ∈ stack, ∀ c ∈ e.fullName, isNameChar c = true) :
    Passed stack.length pieces s.rest t.rest := by
  induction fuel generalizing s stack pieces with
  | zero => exact absurd h fail_eq_ok
  | succ fuel ih =>
      have hmore {x : Reading Piece} (hx : ∀ piece m, x s = .ok (piece, m) → piece.isOpening = false ∧
          (∀ d, piece.depthAfter d = d) ∧ ∀ n, Opens s.rest n → Opens m.rest n)
          (h : (do
            let piece ← x
            return piece :: (← content expand false outer fuel stack) : Reading (List Piece)) s = .ok (pieces, t)) :
          Passed stack.length pieces s.rest t.rest := by
        obtain ⟨piece, m, hpiece, h⟩ := bind_eq_ok.mp h
        obtain ⟨more, m', hmore, h⟩ := bind_eq_ok.mp h
        obtain ⟨rfl, rfl⟩ := pure_eq_ok.mp h
        obtain ⟨hopening, hdepth, hopens⟩ := hx piece m hpiece
        exact (ih hmore hstack).aside hopening hdepth hopens
      unfold content at h
      dsimp only at h
      obtain ⟨hempty, h⟩ | ⟨-, h⟩ := of_ite h
      · obtain ⟨rfl, rfl⟩ := pure_eq_ok.mp h
        have hnil : stack = [] := by simpa using hempty
        rw [hnil]
        exact .nil _
      rw [bind_sees_apply] at h
      obtain ⟨hsection, h⟩ | ⟨-, h⟩ := of_ite h
      · refine hmore (fun piece m hpiece => ?_) h
        obtain ⟨-, kind, text, rfl⟩ := characterSection_eq_ok hpiece
        exact ⟨rfl, fun _ => rfl, opens_section hpiece hsection⟩
      rw [bind_sees_apply] at h
      obtain ⟨hcomment, h⟩ | ⟨-, h⟩ := of_ite h
      · refine hmore (fun piece m hpiece => ?_) h
        obtain ⟨-, kind, text, rfl⟩ := comment_eq_ok hpiece
        exact ⟨rfl, fun _ => rfl, opens_comment hpiece hcomment⟩
      rw [bind_remaining_apply] at h
      generalize hrest : s.rest = rest at h
      split at h
      next =>
        obtain ⟨rfl, rfl⟩ := pure_eq_ok.mp h
        rw [hrest]
        exact .nil _
      next => exact absurd h fail_eq_ok
      next r =>
        rw [← hrest]
        refine hmore (fun piece m hpiece => ?_) h
        obtain ⟨-, kind, text, rfl⟩ := instruction_eq_ok hpiece
        exact ⟨rfl, fun _ => rfl, opens_instruction hpiece (by rw [hrest]; rfl)⟩
      next => exact absurd h fail_eq_ok
      next r e stack =>
        obtain ⟨u, m, hclose, h⟩ := bind_eq_ok.mp h
        obtain ⟨more, m', hrun, h⟩ := bind_eq_ok.mp h
        obtain ⟨rfl, rfl⟩ := pure_eq_ok.mp h
        obtain ⟨he, hstack⟩ := List.forall_mem_cons.mp hstack
        obtain ⟨run, rfl, hnot⟩ := endTag_eq_ok hclose hrest he
        exact (ih hrun hstack).cons rfl fun n hn => ⟨n, hn.closing hnot, rfl⟩
      next r _ _ =>
        obtain ⟨⟨tag, e, closed⟩, m, htag, h⟩ := bind_eq_ok.mp h
        have hopens := opens_startTag htag hrest
        have hname := (startTag_eq_ok htag hrest).2.1
        rw [← hrest]
        cases closed with
        | true =>
            obtain ⟨more, m', hrun, h⟩ := bind_eq_ok.mp h
            obtain ⟨rfl, rfl⟩ := pure_eq_ok.mp h
            have hclosed : Passed (stack.length + 1) (.closing :: more) m.rest m'.rest :=
              (ih hrun hstack).cons rfl fun n hn => ⟨n, hn, rfl⟩
            exact hclosed.cons rfl hopens
        | false =>
            obtain ⟨more, m', hrun, h⟩ := bind_eq_ok.mp h
            obtain ⟨rfl, rfl⟩ := pure_eq_ok.mp h
            exact (ih hrun (List.forall_mem_cons.mpr ⟨hname, hstack⟩)).cons rfl hopens
      next r _ _ =>
        rw [← hrest]
        refine hmore (fun piece m hpiece => ?_) h
        obtain ⟨⟨run, hrun, hnot⟩, hopening, hdepth⟩ := reference_eq_ok (hexpand _) hpiece hrest
        exact ⟨hopening, hdepth, fun n hn => (hrun ▸ hn).pass_run hnot⟩
      next =>
        rw [← hrest]
        rw [bind_remaining_apply] at h
        obtain ⟨text, m, htext, h⟩ := bind_eq_ok.mp h
        obtain ⟨more, m', hrun, h⟩ := bind_eq_ok.mp h
        obtain ⟨rfl, rfl⟩ := pure_eq_ok.mp h
        obtain ⟨hpassed, hall, -⟩ := characterData_eq_ok (Nat.lt_succ_self _) htext
        have hnot : '<' ∉ text := fun hmem => absurd (hall _ hmem) (by decide)
        exact (ih hrun hstack).text fun n hn => (hpassed ▸ hn).pass_run hnot

theorem keeps_entityContent (depth : Nat) (scope : Scope) (name text : List Char) :
    Keeps (entityContent depth scope name text) := by
  cases depth with
  | zero => exact .fail _
  | succ depth =>
      refine (Keeps.expandingName name ?_).bind fun _ => .pure _
      intro s a t h
      unfold inText at h
      split at h
      next => cases h
      next =>
        cases h
        rfl

/-- The outermost element is passed in step with the tokens. -/
theorem root_eq_ok {pieces : List Piece} {y : List Char} (h : root s = .ok (pieces, t)) (hs : s.rest = '<' :: y) :
    Passed 0 pieces s.rest t.rest := by
  unfold root at h
  obtain ⟨⟨tag, e, closed⟩, m, htag, h⟩ := bind_eq_ok.mp h
  have hopens := opens_startTag htag hs
  cases closed with
  | true =>
      obtain ⟨rfl, rfl⟩ := pure_eq_ok.mp h
      have hclosed : Passed 1 [.closing] m.rest m.rest := (Passed.nil _).cons rfl fun n hn => ⟨n, hn, rfl⟩
      exact hclosed.cons rfl hopens
  | false =>
      dsimp only at h
      rw [if_neg Bool.false_ne_true, bind_docType_apply, bind_remaining_apply] at h
      obtain ⟨more, m', hcontent, h⟩ := bind_eq_ok.mp h
      obtain ⟨rfl, rfl⟩ := pure_eq_ok.mp h
      have hname := (startTag_eq_ok htag hs).2.1
      exact (content_eq_ok (keeps_entityContent _) hcontent (List.forall_mem_singleton.mpr hname)).cons rfl hopens

/-- Pieces that are no tags, with what has been passed by them. -/
structure PassedBy (pieces : List Piece) (before after : List Char) : Prop where
  opens : ∀ n, Opens before n → Opens after n
  texts : ∀ piece ∈ pieces, ∃ kind content, piece = .text kind content

theorem opens_spaces {b : Bool} (h : spaces s = .ok (b, t)) (n : Nat) (hn : Opens s.rest n) : Opens t.rest n := by
  obtain ⟨run, hrun, hblank, -⟩ := spaces_eq h
  exact (hrun ▸ hn).pass_run fun hmem => absurd (hblank _ hmem) (by decide)

theorem asides_eq_ok {fuel : Nat} {pieces : List Piece} (h : asides fuel s = .ok (pieces, t)) :
    PassedBy pieces s.rest t.rest := by
  induction fuel generalizing s pieces with
  | zero =>
      obtain ⟨rfl, rfl⟩ := pure_eq_ok.mp h
      exact ⟨fun _ hn => hn, List.forall_mem_nil _⟩
  | succ fuel ih =>
      rw [asides] at h
      obtain ⟨b, m, hspaces, h⟩ := bind_eq_ok.mp h
      have hopens := opens_spaces hspaces
      have hmore {x : Reading Piece} (hx : ∀ piece m', x m = .ok (piece, m') → (∀ n, Opens m.rest n → Opens m'.rest n) ∧
          ∃ kind content, piece = .text kind content)
          (h : (do
            let piece ← x
            return piece :: (← asides fuel) : Reading (List Piece)) m = .ok (pieces, t)) :
          PassedBy pieces s.rest t.rest := by
        obtain ⟨piece, m', hpiece, h⟩ := bind_eq_ok.mp h
        obtain ⟨more, m₁, hrun, h⟩ := bind_eq_ok.mp h
        obtain ⟨rfl, rfl⟩ := pure_eq_ok.mp h
        obtain ⟨hgo, htext⟩ := hx piece m' hpiece
        exact ⟨fun n hn => (ih hrun).opens n (hgo n (hopens n hn)), List.forall_mem_cons.mpr ⟨htext, (ih hrun).texts⟩⟩
      rw [bind_sees_apply] at h
      obtain ⟨hinstruction, h⟩ | ⟨-, h⟩ := of_ite h
      · exact hmore (fun piece m' hpiece => ⟨opens_instruction hpiece hinstruction, (instruction_eq_ok hpiece).2⟩) h
      rw [bind_sees_apply] at h
      obtain ⟨hcomment, h⟩ | ⟨-, h⟩ := of_ite h
      · exact hmore (fun piece m' hpiece => ⟨opens_comment hpiece hcomment, (comment_eq_ok hpiece).2⟩) h
      · obtain ⟨rfl, rfl⟩ := pure_eq_ok.mp h
        exact ⟨hopens, List.forall_mem_nil _⟩

theorem allAsides_eq_ok {pieces : List Piece} (h : allAsides s = .ok (pieces, t)) : PassedBy pieces s.rest t.rest := by
  unfold allAsides at h
  rw [bind_remaining_apply] at h
  exact asides_eq_ok h

theorem PassedBy.countP_eq_zero {before after : List Char} {pieces : List Piece} (h : PassedBy pieces before after) :
    pieces.countP Piece.isOpening = 0 := by
  refine List.countP_eq_zero.mpr fun piece hpiece => ?_
  obtain ⟨kind, content, rfl⟩ := h.texts piece hpiece
  exact Bool.false_ne_true

theorem foldl_depthAfter_texts {pieces : List Piece} (h : ∀ piece ∈ pieces, ∃ kind content, piece = .text kind content)
    (depth : Nat) : pieces.foldl Piece.depthAfter depth = depth := by
  induction pieces with
  | nil => rfl
  | cons piece pieces ih =>
      obtain ⟨⟨kind, content, rfl⟩, hrest⟩ := List.forall_mem_cons.mp h
      exact ih hrest

section DocumentType

theorem quote_of_systemLiteral {text : List Char} (h : systemLiteral s = .ok (text, t)) :
    ∃ q, s.rest.head? = some q ∧ (q = '"' ∨ q = '\'') := by
  unfold systemLiteral at h
  rw [bind_peek_apply] at h
  cases hhead : s.rest.head? with
  | none =>
      rw [hhead] at h
      exact absurd h fail_eq_ok
  | some q =>
      rw [hhead] at h
      obtain ⟨hq, -⟩ | ⟨-, h⟩ := of_ite h
      · exact ⟨q, rfl, by simpa using hq⟩
      · exact absurd h fail_eq_ok

theorem quote_of_publicLiteral {u : Unit} (h : publicLiteral s = .ok (u, t)) :
    ∃ q, s.rest.head? = some q ∧ (q = '"' ∨ q = '\'') := by
  unfold publicLiteral at h
  rw [bind_peek_apply] at h
  cases hhead : s.rest.head? with
  | none =>
      rw [hhead] at h
      exact absurd h fail_eq_ok
  | some q =>
      rw [hhead] at h
      obtain ⟨hq, -⟩ | ⟨-, h⟩ := of_ite h
      · exact ⟨q, rfl, by simpa using hq⟩
      · exact absurd h fail_eq_ok

variable {body r : List Char}

/-- Where the rest of a document type lies is said in quotes. -/
theorem externalId_plain {id : Option (List Char)} (h : externalId false s = .ok (id, t))
    (hs : s.rest = body ++ '>' :: r) (hbody : ∀ c ∈ body, Token.isTypeChar c = true) : id = none ∧ t = s := by
  have hquote {word : List Char} {cause : Cause} {m k : State} {u : Unit} (hword : ∀ c ∈ word, Token.isTypeChar c = true)
      (haccept : accept word s = .ok (true, m)) (hspace : someSpace cause m = .ok (u, k)) :
      ¬ ∃ q, k.rest.head? = some q ∧ (q = '"' ∨ q = '\'') := by
    rintro ⟨q, hq, hmark⟩
    have htext : (word ++ m.rest.takeWhile isSpace) ++ q :: k.rest.drop 1 = body ++ '>' :: r := by
      rw [← hs, accept_true haccept, ← cons_of_head? hq, (someSpace_eq_ok hspace).2, List.append_assoc,
        List.takeWhile_append_dropWhile]
    have hblank : ∀ c ∈ word ++ m.rest.takeWhile isSpace, ¬ Token.isTypeChar c = false := by
      intro c hc
      obtain hc | hc := List.mem_append.mp hc
      · simp [hword c hc]
      · have hspace := List.mem_takeWhile_imp hc
        simp only [Token.isTypeChar, Bool.not_eq_false', Bool.or_eq_true, beq_iff_eq]
        rintro (((rfl | rfl) | rfl) | rfl) <;> exact absurd hspace (by decide)
    have hplain : ∀ c ∈ body, ¬ Token.isTypeChar c = false := fun c hc => by simp [hbody c hc]
    have hmark' : Token.isTypeChar q = false := by obtain rfl | rfl := hmark <;> decide
    obtain ⟨-, heq, -⟩ := TagEnd.eq_of_split hblank hplain hmark' (by decide) htext
    obtain rfl | rfl := hmark <;> cases heq
  unfold externalId at h
  obtain ⟨isSystem, m, hsystem, hmore⟩ := bind_eq_ok.mp h
  clear h
  cases isSystem with
  | true =>
      obtain ⟨u, k, hspace, hmore⟩ := bind_eq_ok.mp hmore
      obtain ⟨text, k', hliteral, -⟩ := bind_eq_ok.mp hmore
      exact absurd (quote_of_systemLiteral hliteral) (hquote (List.all_eq_true.mp (by decide)) hsystem hspace)
  | false =>
      obtain ⟨isPublic, k, hpublic, hlast⟩ := bind_eq_ok.mp hmore
      obtain rfl := (accept_false hsystem).2
      cases isPublic with
      | true =>
          obtain ⟨u, k', hspace, hlast⟩ := bind_eq_ok.mp hlast
          obtain ⟨u', k'', hliteral, -⟩ := bind_eq_ok.mp hlast
          exact absurd (quote_of_publicLiteral hliteral) (hquote (List.all_eq_true.mp (by decide)) hpublic hspace)
      | false =>
          obtain ⟨rfl, rfl⟩ := pure_eq_ok.mp hlast
          exact ⟨rfl, (accept_false hpublic).2⟩

/-- The beginning of a document type, up to its name and the white space behind it. -/
def typeName : Reading (List Char) := do
  skip 9
  someSpace .doctypeSpace
  let n ← name
  if n.isEmpty then fail .doctypeNameMissing
  let _ ← spaces
  return n

theorem typeName_eq_ok {n : List Char} (h : typeName s = .ok (n, t)) :
    (∃ run, s.rest.drop 9 = run ++ t.rest ∧ ∀ c ∈ run, isSpace c = true ∨ isNameChar c = true) ∧
      ∀ c, t.rest.head? = some c → isSpace c = false := by
  unfold typeName at h
  rw [bind_skip_apply] at h
  obtain ⟨u, m, hspace, h⟩ := bind_eq_ok.mp h
  obtain ⟨n', m', hname, h⟩ := bind_eq_ok.mp h
  dsimp only at h
  split at h
  next => exact absurd h fail_eq_ok
  next =>
    obtain ⟨b, k, hblank, h⟩ := bind_eq_ok.mp h
    obtain ⟨-, rfl⟩ := pure_eq_ok.mp h
    obtain ⟨hrun, hall⟩ := ran_name hname
    obtain ⟨more, hmore, hblanks, hends⟩ := spaces_eq hblank
    refine ⟨⟨s.rest.drop 9 |>.takeWhile isSpace |>.append (n' ++ more), ?_, fun c hc => ?_⟩, hends⟩
    · have hrest := (someSpace_eq_ok hspace).2
      rw [State.rest_advance] at hrest
      rw [List.append_eq, List.append_assoc, List.append_assoc, ← hmore, ← hrun, hrest, List.takeWhile_append_dropWhile]
    · obtain hc | hc := List.mem_append.mp hc
      · exact .inl (List.mem_takeWhile_imp hc)
      obtain hc | hc := List.mem_append.mp hc
      · exact .inr (hall c hc)
      · exact .inl (hblanks c hc)

/-- In a plain document type, what its name leaves of it comes right behind. -/
theorem typeName_within {n : List Char} (h : typeName s = .ok (n, t))
    (hs : s.rest = "<!DOCTYPE".toList ++ (body ++ '>' :: r)) : ∃ run more, body = run ++ more ∧ t.rest = more ++ '>' :: r := by
  obtain ⟨⟨run, hrun, hall⟩, -⟩ := typeName_eq_ok h
  have hdrop : s.rest.drop 9 = body ++ '>' :: r := by
    rw [hs]
    rfl
  obtain ⟨more, hleft, hright⟩ | ⟨more, hleft, hright⟩ := List.append_eq_append_iff.mp (hrun.symm.trans hdrop)
  · exact ⟨run, more, hleft, hright⟩
  · cases more with
    | nil => exact ⟨body, [], (List.append_nil _).symm, hright.symm⟩
    | cons c more =>
        obtain rfl := (List.cons.inj hright).1
        exact absurd (hall '>' (hleft ▸ List.mem_append_right _ List.mem_cons_self)) (by decide)

/-- The rest of a document type, behind its name. -/
def typeEnd (n : List Char) : Reading Piece := do
  let external ← externalId false
  declare fun d => { d with hasExternalSubset := external.isSome }
  let _ ← spaces
  if ← accept ['['] then
    declarations (parameterContent 40) false (← remaining).length.succ
    skip 1
    let _ ← spaces
  expect ['>'] .doctypeNotFinished
  return .text .doctype n

theorem documentType_eq_bind : documentType = typeName >>= typeEnd := by
  unfold documentType typeName
  simp only [bind_assoc]
  refine bind_congr fun _ => bind_congr fun _ => bind_congr fun n => ?_
  split
  next => rfl
  next =>
    simp only [bind_assoc, pure_bind]
    rfl

theorem documentType_iff {piece : Piece} : documentType s = .ok (piece, t) ↔
    ∃ n m, typeName s = .ok (n, m) ∧ typeEnd n m = .ok (piece, t) := by
  rw [documentType_eq_bind]
  exact bind_eq_ok

theorem typeEnd_eq_ok {n : List Char} {piece : Piece} (h : typeEnd n s = .ok (piece, t)) : piece = .text .doctype n := by
  have hend {k : State} (h : (do
      expect ['>'] .doctypeNotFinished
      return .text .doctype n : Reading Piece) k = .ok (piece, t)) : piece = .text .doctype n := by
    obtain ⟨u, m, -, h⟩ := bind_eq_ok.mp h
    exact (pure_eq_ok.mp h).1.symm
  unfold typeEnd at h
  obtain ⟨external, m, -, h⟩ := bind_eq_ok.mp h
  rw [bind_declare_apply] at h
  obtain ⟨b, m₁, -, h⟩ := bind_eq_ok.mp h
  obtain ⟨subset, m₂, -, h⟩ := bind_eq_ok.mp h
  obtain ⟨-, h⟩ | ⟨-, h⟩ := of_ite h
  · rw [bind_remaining_apply] at h
    obtain ⟨u, m₃, -, h⟩ := bind_eq_ok.mp h
    rw [bind_skip_apply] at h
    obtain ⟨b, m₄, -, h⟩ := bind_eq_ok.mp h
    exact hend h
  · exact hend h

theorem documentType_eq_ok {piece : Piece} (h : documentType s = .ok (piece, t)) : ∃ n, piece = .text .doctype n := by
  obtain ⟨n, m, -, hend⟩ := documentType_iff.mp h
  exact ⟨n, typeEnd_eq_ok hend⟩

theorem typeEnd_closed (n : List Char) (hs : s.rest = '>' :: r) : typeEnd n s = .ok (.text .doctype n,
    State.advance { s with docType := { s.docType with hasExternalSubset := false } } 1) := by
  have hnone {word : List Char} {k : State} (hk : k.rest = '>' :: r) (hword : ∃ c more, word = c :: more ∧ c ≠ '>') :
      accept word k = .ok (false, k) := by
    obtain ⟨c, more, rfl, hc⟩ := hword
    refine accept_eq_ok.mpr ⟨?_, rfl⟩
    rw [hk, List.isPrefixOf, beq_eq_false_iff_ne.mpr hc, Bool.false_and]
  have hid : externalId false s = .ok (none, s) :=
    bind_eq_ok.mpr ⟨false, s, hnone hs ⟨_, _, rfl, by decide⟩, bind_eq_ok.mpr
      ⟨false, s, hnone hs ⟨_, _, rfl, by decide⟩, rfl⟩⟩
  generalize hk : ({ s with docType := { s.docType with hasExternalSubset := false } } : State) = k
  have hrest : k.rest = '>' :: r := by rw [← hk, hs]
  have hblank : spaces k = .ok (false, k) := by
    refine bind_eq_ok.mpr ⟨[], k, takeWhile_eq_ok.mpr ?_, rfl⟩
    rw [hrest, List.takeWhile_cons_of_neg (by decide)]
    exact ⟨rfl, rfl⟩
  have hend : expect ['>'] .doctypeNotFinished k = .ok ((), k.advance 1) :=
    bind_eq_ok.mpr ⟨true, k.advance 1, accept_eq_ok.mpr ⟨by rw [hrest]; rfl, rfl⟩, rfl⟩
  refine bind_eq_ok.mpr ⟨none, s, hid, ?_⟩
  rw [bind_declare_apply]
  refine bind_eq_ok.mpr ⟨false, k, hk ▸ hblank, bind_eq_ok.mpr ⟨false, k, hnone hrest ⟨_, _, rfl, by decide⟩, ?_⟩⟩
  exact bind_eq_ok.mpr ⟨(), k.advance 1, hend, rfl⟩

/-- A document type that ends behind its name has been read. -/
theorem documentType_of_typeName {n : List Char} {m : State} (h : typeName s = .ok (n, m)) (hm : m.rest = '>' :: r) :
    documentType s = .ok (.text .doctype n,
      State.advance { m with docType := { m.docType with hasExternalSubset := false } } 1) :=
  documentType_iff.mpr ⟨n, m, h, typeEnd_closed n hm⟩

theorem typeEnd_plain {n : List Char} {piece : Piece} (h : typeEnd n s = .ok (piece, t))
    (hs : s.rest = body ++ '>' :: r) (hbody : ∀ c ∈ body, Token.isTypeChar c = true)
    (hstart : ∀ c, s.rest.head? = some c → isSpace c = false) : body = [] := by
  have hfirst {c : Char} {rest : List Char} (hc : Token.isTypeChar c = false) (hrest : s.rest = c :: rest) :
      c = '>' ∧ body = [] := by
    rw [hs] at hrest
    cases body with
    | nil => exact ⟨(List.cons.inj hrest).1.symm, rfl⟩
    | cons d body =>
        have hplain := hbody d List.mem_cons_self
        rw [(List.cons.inj hrest).1, hc] at hplain
        cases hplain
  unfold typeEnd at h
  obtain ⟨id, m, hid, htail⟩ := bind_eq_ok.mp h
  obtain ⟨rfl, rfl⟩ := externalId_plain hid hs hbody
  rw [bind_declare_apply] at htail
  obtain ⟨b, k, hblank, htail⟩ := bind_eq_ok.mp htail
  have hk : k.rest = m.rest := by
    rw [(spaces_eq_ok hblank).1]
    cases hrest : m.rest with
    | nil => rfl
    | cons c rest =>
        exact List.dropWhile_cons_of_neg (by rw [hstart c (by rw [hrest]; rfl)]; exact Bool.false_ne_true)
  obtain ⟨isSubset, k', hsubset, hlast⟩ := bind_eq_ok.mp htail
  cases isSubset with
  | true => exact absurd (hfirst (by decide) (hk.symm.trans (accept_true hsubset))).1 (by decide)
  | false =>
      obtain rfl := (accept_false hsubset).2
      obtain ⟨u, k'', hend, -⟩ := bind_eq_ok.mp hlast
      exact (hfirst (by decide) (hk.symm.trans (expect_eq_ok hend))).2

/-- A document type in which nothing hides its end is no more than a name. -/
theorem typeName_of_documentType {piece : Piece} (h : documentType s = .ok (piece, t))
    (hs : s.rest = "<!DOCTYPE".toList ++ (body ++ '>' :: r)) (hbody : ∀ c ∈ body, Token.isTypeChar c = true) :
    ∃ n m, typeName s = .ok (n, m) ∧ m.rest = '>' :: r := by
  obtain ⟨n, m, hname, hend⟩ := documentType_iff.mp h
  obtain ⟨run, more, rfl, hm⟩ := typeName_within hname hs
  obtain rfl := typeEnd_plain hend hm (fun c hc => hbody c (List.mem_append_right _ hc)) (typeName_eq_ok hname).2
  exact ⟨n, m, hname, hm⟩

theorem rest_of_documentType {piece : Piece} (h : documentType s = .ok (piece, t))
    (hs : s.rest = "<!DOCTYPE".toList ++ (body ++ '>' :: r)) (hbody : ∀ c ∈ body, Token.isTypeChar c = true) :
    t.rest = r := by
  obtain ⟨n, m, hname, hm⟩ := typeName_of_documentType h hs hbody
  cases h.symm.trans (documentType_of_typeName hname hm)
  rw [State.rest_advance, hm]
  rfl

end DocumentType

/-- An XML declaration stands at the beginning. -/
def isDeclared (r : List Char) : Bool := (r.drop 5).head?.any isSpace && "<?xml".toList.isPrefixOf r

/-- The document type, if there is one, and what stands behind it up to the outermost element. -/
def typed : Reading (List Piece) := do
  if ← sees "<!DOCTYPE".toList then
    let piece ← documentType
    return piece :: (← allAsides)
  else return []

/-- A document type is read, or else there is none. -/
theorem typed_iff {pieces : List Piece} : typed s = .ok (pieces, t) ↔
    ("<!DOCTYPE".toList.isPrefixOf s.rest = true ∧ ∃ piece m more, documentType s = .ok (piece, m) ∧
      allAsides m = .ok (more, t) ∧ pieces = piece :: more) ∨
    ("<!DOCTYPE".toList.isPrefixOf s.rest = false ∧ pieces = [] ∧ t = s) := by
  unfold typed
  rw [bind_sees_apply]
  cases hseen : "<!DOCTYPE".toList.isPrefixOf s.rest with
  | true =>
      constructor
      · intro h
        obtain ⟨piece, m, hpiece, h⟩ := bind_eq_ok.mp h
        obtain ⟨more, m', hmore, h⟩ := bind_eq_ok.mp h
        obtain ⟨rfl, rfl⟩ := pure_eq_ok.mp h
        exact .inl ⟨rfl, piece, m, more, hpiece, hmore, rfl⟩
      · rintro (⟨-, piece, m, more, hpiece, hmore, rfl⟩ | ⟨hnone, -⟩)
        · exact bind_eq_ok.mpr ⟨piece, m, hpiece, bind_eq_ok.mpr ⟨more, t, hmore, rfl⟩⟩
        · cases hnone
  | false =>
      constructor
      · intro h
        obtain ⟨rfl, rfl⟩ := pure_eq_ok.mp h
        exact .inr ⟨rfl, rfl, rfl⟩
      · rintro (⟨hsome, -⟩ | ⟨-, rfl, rfl⟩)
        · cases hsome
        · rfl

theorem typed_eq_ok {pieces : List Piece} (h : typed s = .ok (pieces, t)) : PassedBy pieces s.rest t.rest := by
  obtain ⟨hseen, piece, m, more, hpiece, hmore, rfl⟩ | ⟨-, rfl, rfl⟩ := typed_iff.mp h
  · have hmore := allAsides_eq_ok hmore
    have hs := prefix_drop hseen
    refine ⟨fun n hn => hmore.opens n ?_, List.forall_mem_cons.mpr ⟨?_, hmore.texts⟩⟩
    · rw [hs] at hn
      obtain ⟨body, rest, hbody, hplain, hopens⟩ := hn.of_type
      rw [hbody] at hs
      rw [rest_of_documentType hpiece hs hplain]
      exact hopens
    · obtain ⟨n, rfl⟩ := documentType_eq_ok hpiece
      exact ⟨_, _, rfl⟩
  · exact ⟨fun _ hn => hn, List.forall_mem_nil _⟩

/-- What follows the declaration of a document. -/
def body : Reading (List Piece) := do
  let before ← allAsides
  let typed ← if ← sees "<!DOCTYPE".toList then
      let piece ← documentType
      pure (piece :: (← allAsides))
    else pure []
  unless ← sees ['<'] do fail .startTagExpected
  let root ← root
  let after ← allAsides
  unless (← remaining).isEmpty do fail .extraContent
  return before ++ typed ++ root ++ after

theorem document_apply {c : Char} (hc : s.rest.head? = some c) (hnull : c ≠ '\x00') :
    document s = ((if isDeclared s.rest then declaration else pure ()) >>= fun _ => body) s := by
  unfold document
  rw [bind_peek_apply, hc]
  dsimp only
  rw [if_neg (by simpa using hnull), bind_remaining_apply]
  cases hrest : s.rest.drop 5 with
  | nil =>
      have hdeclared : isDeclared s.rest = false := by
        unfold isDeclared
        rw [hrest]
        rfl
      rw [hdeclared]
      rfl
  | cons d r =>
      have hdeclared : isDeclared s.rest = (isSpace d && "<?xml".toList.isPrefixOf s.rest) := by
        unfold isDeclared
        rw [hrest]
        rfl
      rw [hdeclared]
      dsimp only
      rw [bind_sees_apply]
      split
      · rfl
      · rfl

/-- A document has a declaration or none, and then its body. -/
theorem document_iff {pieces : List Piece} : document s = .ok (pieces, t) ↔
    (∃ c, s.rest.head? = some c ∧ c ≠ '\x00') ∧
      ∃ m, (isDeclared s.rest = true ∧ declaration s = .ok ((), m) ∨ isDeclared s.rest = false ∧ m = s) ∧
        body m = .ok (pieces, t) := by
  constructor
  · intro h
    obtain ⟨c, hc, hnull⟩ : ∃ c, s.rest.head? = some c ∧ c ≠ '\x00' := by
      unfold document at h
      rw [bind_peek_apply] at h
      cases hhead : s.rest.head? with
      | none =>
          rw [hhead] at h
          exact absurd h fail_eq_ok
      | some c =>
          rw [hhead] at h
          obtain ⟨-, h⟩ | ⟨hnull, -⟩ := of_ite h
          · exact absurd h fail_eq_ok
          · exact ⟨c, rfl, by simpa using hnull⟩
    refine ⟨⟨c, hc, hnull⟩, ?_⟩
    rw [document_apply hc hnull] at h
    cases hdeclared : isDeclared s.rest with
    | false =>
        rw [hdeclared, if_neg Bool.false_ne_true, bind_pure_apply] at h
        exact ⟨s, .inr ⟨rfl, rfl⟩, h⟩
    | true =>
        rw [hdeclared, if_pos rfl] at h
        obtain ⟨u, m, hdeclaration, hbody⟩ := bind_eq_ok.mp h
        exact ⟨m, .inl ⟨rfl, hdeclaration⟩, hbody⟩
  · rintro ⟨⟨c, hc, hnull⟩, m, ⟨hdeclared, hdeclaration⟩ | ⟨hdeclared, rfl⟩, hbody⟩
    · rw [document_apply hc hnull, hdeclared, if_pos rfl]
      exact bind_eq_ok.mpr ⟨(), m, hdeclaration, hbody⟩
    · rw [document_apply hc hnull, hdeclared, if_neg Bool.false_ne_true, bind_pure_apply]
      exact hbody

/-- A body is one element, with a document type or none before it, and comments, instructions and white space around
them. -/
theorem body_iff {pieces : List Piece} : body s = .ok (pieces, t) ↔
    ∃ before m lead k inner l after, allAsides s = .ok (before, m) ∧ typed m = .ok (lead, k) ∧
      ['<'].isPrefixOf k.rest = true ∧ root k = .ok (inner, l) ∧ allAsides l = .ok (after, t) ∧ t.rest = [] ∧
        pieces = before ++ lead ++ inner ++ after := by
  have hrest {before lead : List Piece} {k : State} : (do
      unless ← sees ['<'] do fail .startTagExpected
      let root ← root
      let after ← allAsides
      unless (← remaining).isEmpty do fail .extraContent
      return before ++ lead ++ root ++ after : Reading (List Piece)) k = .ok (pieces, t) ↔
        ∃ inner l after, ['<'].isPrefixOf k.rest = true ∧ root k = .ok (inner, l) ∧ allAsides l = .ok (after, t) ∧
          t.rest = [] ∧ pieces = before ++ lead ++ inner ++ after := by
    rw [bind_sees_apply]
    constructor
    · intro h
      obtain ⟨hopen, h⟩ | ⟨-, h⟩ := of_ite h
      · obtain ⟨inner, l, hroot, h⟩ := bind_eq_ok.mp h
        obtain ⟨after, l', hafter, h⟩ := bind_eq_ok.mp h
        rw [bind_remaining_apply] at h
        obtain ⟨hempty, h⟩ | ⟨-, h⟩ := of_ite h
        · obtain ⟨rfl, rfl⟩ := pure_eq_ok.mp h
          exact ⟨inner, l, after, hopen, hroot, hafter, List.isEmpty_iff.mp hempty, rfl⟩
        · exact absurd h fail_eq_ok
      · exact absurd h fail_eq_ok
    · rintro ⟨inner, l, after, hopen, hroot, hafter, hempty, rfl⟩
      rw [if_pos hopen]
      refine bind_eq_ok.mpr ⟨inner, l, hroot, bind_eq_ok.mpr ⟨after, t, hafter, ?_⟩⟩
      rw [bind_remaining_apply, if_pos (List.isEmpty_iff.mpr hempty)]
      rfl
  unfold body
  rw [bind_eq_ok]
  constructor
  · rintro ⟨before, m, hbefore, h⟩
    rw [bind_sees_apply] at h
    obtain ⟨hseen, h⟩ | ⟨hseen, h⟩ := of_ite h
    · obtain ⟨piece, m', hpiece, h⟩ := bind_eq_ok.mp h
      obtain ⟨more, k, hmore, h⟩ := bind_eq_ok.mp h
      obtain ⟨inner, l, after, h⟩ := hrest.mp h
      exact ⟨before, m, _, k, inner, l, after, hbefore, typed_iff.mpr (.inl ⟨hseen, piece, m', more, hpiece, hmore, rfl⟩), h⟩
    · obtain ⟨inner, l, after, h⟩ := hrest.mp h
      have htyped : typed m = .ok ([], m) := typed_iff.mpr (.inr ⟨Bool.eq_false_iff.mpr hseen, rfl, rfl⟩)
      exact ⟨before, m, [], m, inner, l, after, hbefore, htyped, h⟩
  · rintro ⟨before, m, lead, k, inner, l, after, hbefore, htyped, h⟩
    refine ⟨before, m, hbefore, ?_⟩
    rw [bind_sees_apply]
    obtain ⟨hseen, piece, m', more, hpiece, hmore, rfl⟩ | ⟨hseen, rfl, rfl⟩ := typed_iff.mp htyped
    · rw [if_pos hseen]
      exact bind_eq_ok.mpr ⟨piece, m', hpiece, bind_eq_ok.mpr ⟨more, k, hmore, hrest.mpr ⟨inner, l, after, h⟩⟩⟩
    · rw [if_neg (by rw [hseen]; exact Bool.false_ne_true)]
      exact hrest.mpr ⟨inner, l, after, h⟩

theorem body_eq_ok {pieces : List Piece} {n : Nat} (h : body s = .ok (pieces, t)) (hn : Opens s.rest n) :
    n = pieces.countP Piece.isOpening ∧ pieces.foldl Piece.depthAfter 0 = 0 := by
  obtain ⟨before, m, lead, k, inner, l, after, hbefore, hlead, hopen, hroot, hafter, hempty, rfl⟩ := body_iff.mp h
  have hbefore := allAsides_eq_ok hbefore
  have hlead := typed_eq_ok hlead
  have hroot := root_eq_ok hroot (prefix_drop hopen)
  have hafter := allAsides_eq_ok hafter
  obtain ⟨i, hi, rfl⟩ := hroot.opens n (hlead.opens n (hbefore.opens n hn))
  have hzero := hafter.opens i hi
  rw [hempty] at hzero
  constructor
  · simp [List.countP_append, hbefore.countP_eq_zero, hlead.countP_eq_zero, hafter.countP_eq_zero, hzero.nil]
  · simp [List.foldl_append, foldl_depthAfter_texts hbefore.texts, foldl_depthAfter_texts hlead.texts,
      foldl_depthAfter_texts hafter.texts, hroot.closes]

/-- The declaration of a document is an instruction. -/
theorem declaration_ends {u : Unit} {m : State} (hdeclared : isDeclared s.rest = true)
    (h : declaration s = .ok (u, m)) : ∃ y, s.rest = "<?".toList ++ y ∧ EndsAt ("?".toList ++ ['>']) y m.rest := by
  have hstart : s.rest = "<?".toList ++ (['x', 'm', 'l'] ++ s.rest.drop 5) :=
    prefix_drop (Bool.and_eq_true_iff.mp hdeclared).2
  exact ⟨_, hstart, EndsAt.append rfl (by decide : '?' ∉ ['x', 'm', 'l']) (declaration_eq_ok h)⟩

/-- A document is passed to its end in step with the tokens. -/
theorem document_eq_ok {pieces : List Piece} {n : Nat} (h : document s = .ok (pieces, t)) (hn : Opens s.rest n) :
    n = pieces.countP Piece.isOpening ∧ pieces.foldl Piece.depthAfter 0 = 0 := by
  obtain ⟨-, m, ⟨hdeclared, hdeclaration⟩ | ⟨-, rfl⟩, hbody⟩ := document_iff.mp h
  · obtain ⟨y, hstart, hends⟩ := declaration_ends hdeclared hdeclaration
    rw [hstart] at hn
    exact body_eq_ok hbody (hn.aside .instruction hends)
  · exact body_eq_ok hbody hn

end Reading

/-- A document that can be read has been gone through, and no problem shuts it out. -/
theorem exists_document_of_read {source : List Char} {contents : Contents} (h : read source = .ok contents) :
    ∃ s, Reading.document { rest := joinLineEnds (withoutMark source) } = .ok (contents.pieces, s) ∧
      contents.declaresEntities = !(s.docType.entities.isEmpty && s.docType.parameters.isEmpty) := by
  unfold read at h
  split at h
  next => cases h
  next pieces s hdocument =>
    refine ⟨s, ?_⟩
    dsimp only at h
    split at h
    next =>
      cases h
      exact ⟨hdocument, rfl⟩
    next =>
      split at h
      next => cases h
      next =>
        cases h
        exact ⟨hdocument, rfl⟩

end MarkupIds.Xml
