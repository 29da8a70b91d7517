import MarkupIds.Proofs.Xml.TwinContent

/-! A whole document and its twin: what is read of the one is read of the other. -/

namespace MarkupIds.Xml

namespace Reading

variable {s s' t : State} {attr : List Char} {pieces : List Piece}

/-- The root element is read in the twin. -/
theorem Abreast.root {y : List Char} (h : Abreast attr s s') (hroot : root s = .ok (pieces, t)) (hs : s.rest = '<' :: y)
    (hfree : OghamFree s.rest) (hattr : isLocalName attr = true) (hxmlns : attr ≠ "xmlns".toList) :
    ∃ pieces' t', Reading.root s' = .ok (pieces', t') ∧ Abreast attr t t' := by
  unfold Reading.root at hroot ⊢
  obtain ⟨⟨tag, e, closed⟩, m, htag, hroot⟩ := bind_eq_ok.mp hroot
  obtain ⟨hogham, -⟩ := oghamFree_of_startTag htag hs hfree
  obtain ⟨hname, hretraced⟩ := startTag_retraced htag hs hfree
  obtain ⟨tag', e', m', htag', hfull, hscope, -, -, hm⟩ := h.startTag htag hs hogham hattr hxmlns
  cases closed with
  | true =>
      obtain ⟨-, rfl⟩ := pure_eq_ok.mp hroot
      exact ⟨_, m', bind_eq_ok.mpr ⟨_, m', htag', rfl⟩, hm⟩
  | false =>
      dsimp only at hroot
      rw [if_neg Bool.false_ne_true, bind_docType_apply, bind_remaining_apply] at hroot
      obtain ⟨more, k, hcontent, hroot⟩ := bind_eq_ok.mp hroot
      obtain ⟨rfl, rfl⟩ := pure_eq_ok.mp hroot
      obtain ⟨more', t', hcontent', ht⟩ := hm.content (keeps_entityContent _)
        (entityContent m'.docType.entities.length.succ) hattr hxmlns hcontent
        (List.forall_mem_singleton.mpr hname) hretraced.free (.cons ⟨hfull, hscope⟩ .nil)
        (Nat.lt_succ_self _)
      refine ⟨.opening tag' :: more', t', bind_eq_ok.mpr ⟨_, m', htag', ?_⟩, ht⟩
      dsimp only
      rw [if_neg Bool.false_ne_true, bind_docType_apply, bind_remaining_apply]
      exact bind_eq_ok.mpr ⟨more', t', hcontent', rfl⟩

/-- White space, comments and instructions are read in the twin. -/
theorem Abreast.asides {fuel fuel' : Nat} (h : Abreast attr s s') (hasides : asides fuel s = .ok (pieces, t))
    (hfree : OghamFree s.rest) (hfuel : s.rest.length < fuel) (hfuel' : s'.rest.length < fuel') :
    ∃ t', Reading.asides fuel' s' = .ok (pieces, t') ∧ Abreast attr t t' := by
  induction fuel generalizing s s' pieces fuel' with
  | zero => omega
  | succ fuel ih =>
      obtain ⟨fuel', rfl⟩ : ∃ k, fuel' = k + 1 := ⟨fuel' - 1, by omega⟩
      rw [Reading.asides] at hasides ⊢
      obtain ⟨b, m, hspaces, hasides⟩ := bind_eq_ok.mp hasides
      obtain ⟨m', hspaces', hm⟩ := h.spaces hspaces
      obtain ⟨run, hrun, hblank, -⟩ := spaces_eq hspaces
      have hfree' : OghamFree m.rest := (hrun ▸ hfree).pass_run fun hmem => absurd (hblank _ hmem) (by decide)
      have hlength : m.rest.length ≤ s.rest.length := by
        rw [hrun, List.length_append]
        omega
      have hlength' : m'.rest.length ≤ s'.rest.length := by
        obtain ⟨run', hrun', -⟩ := spaces_eq hspaces'
        rw [hrun', List.length_append]
        omega
      have hmore {x : Reading Piece} (hx : ∀ piece k, x m = .ok (piece, k) → OghamFree k.rest ∧
          (∃ raw, Token.Found m.rest (.other raw) k.rest) ∧ Repeats Next (fun _ => x) m piece k)
          (h : (do
            let piece ← x
            return piece :: (← Reading.asides fuel) : Reading (List Piece)) m = .ok (pieces, t)) :
          ∃ t', (do
            let piece ← x
            return piece :: (← Reading.asides fuel') : Reading (List Piece)) m' = .ok (pieces, t') ∧ Abreast attr t t' := by
        obtain ⟨piece, k, hpiece, h⟩ := bind_eq_ok.mp h
        obtain ⟨more, k₁, hrest, h⟩ := bind_eq_ok.mp h
        obtain ⟨rfl, rfl⟩ := pure_eq_ok.mp h
        obtain ⟨hfree, ⟨raw, hfound⟩, hagain⟩ := hx piece k hpiece
        obtain ⟨k', hpiece', hless, hk⟩ := hm.aside hagain hfound
        have hfirst := hfound.length_lt
        have hfuel₁ : k'.rest.length < fuel' := by omega
        obtain ⟨t', hrest', ht⟩ := ih hk hrest hfree (by omega) hfuel₁
        exact ⟨t', bind_eq_ok.mpr ⟨piece, k', hpiece', bind_eq_ok.mpr ⟨more, t', hrest', rfl⟩⟩, ht⟩
      have hmark : ['<', '?'].isPrefixOf m'.rest = ['<', '?'].isPrefixOf m.rest := hm.twin.sees_eq (.inr rfl) (by decide)
      have hdashes : "<!--".toList.isPrefixOf m'.rest = "<!--".toList.isPrefixOf m.rest :=
        hm.twin.sees_eq (.inl rfl) (by decide)
      suffices hrest : ∃ t', (_ : Reading (List Piece)) m' = .ok (pieces, t') ∧ Abreast attr t t' by
        obtain ⟨t', hrest, ht⟩ := hrest
        exact ⟨t', bind_eq_ok.mpr ⟨b, m', hspaces', hrest⟩, ht⟩
      rw [bind_sees_apply] at hasides ⊢
      rw [hmark]
      obtain ⟨hseen, hasides⟩ | ⟨hseen, hasides⟩ := of_ite hasides
      · rw [if_pos hseen]
        exact hmore (fun piece k hpiece => ⟨(instruction_retraced hpiece hseen hfree').1.free,
          exists_found_instruction hpiece hseen, Steady.instruction m piece k hm.like.undeclared hpiece⟩) hasides
      rw [if_neg hseen, bind_sees_apply, hdashes]
      rw [bind_sees_apply] at hasides
      obtain ⟨hseen, hasides⟩ | ⟨hseen, hasides⟩ := of_ite hasides
      · rw [if_pos hseen]
        exact hmore (fun piece k hpiece => ⟨(comment_retraced hpiece hseen hfree').1.free,
          exists_found_comment hpiece hseen, Steady.comment m piece k hm.like.undeclared hpiece⟩) hasides
      · obtain ⟨rfl, rfl⟩ := pure_eq_ok.mp hasides
        rw [if_neg hseen]
        exact ⟨m', rfl, hm⟩

theorem Abreast.allAsides (h : Abreast attr s s') (hasides : allAsides s = .ok (pieces, t)) (hfree : OghamFree s.rest) :
    ∃ t', Reading.allAsides s' = .ok (pieces, t') ∧ Abreast attr t t' := by
  unfold Reading.allAsides at hasides ⊢
  rw [bind_remaining_apply] at hasides ⊢
  exact h.asides hasides hfree (Nat.lt_succ_self _) (Nat.lt_succ_self _)

/-- White space behind the mark tells a declaration from an instruction. -/
theorem isDeclared_iff {r : List Char} :
    isDeclared r = true ↔ ∃ d, isSpace d = true ∧ ('<' :: '?' :: ['x', 'm', 'l', d]).isPrefixOf r = true := by
  unfold isDeclared
  rw [Bool.and_eq_true_iff, Option.any_eq_true]
  constructor
  · rintro ⟨⟨d, hd, hspace⟩, hmark⟩
    obtain ⟨u, rfl⟩ := List.isPrefixOf_iff_prefix.mp hmark
    obtain ⟨v, rfl⟩ : ∃ v, u = d :: v := ⟨_, cons_of_head? (hd : u.head? = some d)⟩
    exact ⟨d, hspace, List.isPrefixOf_iff_prefix.mpr ⟨v, rfl⟩⟩
  · rintro ⟨d, hspace, hmark⟩
    obtain ⟨u, rfl⟩ := List.isPrefixOf_iff_prefix.mp hmark
    exact ⟨⟨d, rfl, hspace⟩, List.isPrefixOf_iff_prefix.mpr ⟨d :: u, rfl⟩⟩

theorem Abreast.isDeclared_eq (h : Abreast attr s s') : isDeclared s'.rest = isDeclared s.rest := by
  have hmark {d : Char} (hd : isSpace d = true) : ('<' :: '?' :: ['x', 'm', 'l', d]).isPrefixOf s'.rest =
      ('<' :: '?' :: ['x', 'm', 'l', d]).isPrefixOf s.rest := by
    refine h.twin.sees_eq (.inr rfl) fun hmem => ?_
    obtain rfl : d = '>' := by simpa [eq_comm] using hmem
    exact absurd hd (by decide)
  rw [Bool.eq_iff_iff, isDeclared_iff, isDeclared_iff]
  constructor
  · rintro ⟨d, hd, hseen⟩
    exact ⟨d, hd, (hmark hd).symm.trans hseen⟩
  · rintro ⟨d, hd, hseen⟩
    exact ⟨d, hd, (hmark hd).trans hseen⟩

/-- A document type is read in the twin, and what stands behind it. -/
theorem Abreast.typed (h : Abreast attr s s') (htyped : typed s = .ok (pieces, t)) (hfree : OghamFree s.rest) :
    ∃ t', Reading.typed s' = .ok (pieces, t') ∧ Abreast attr t t' := by
  have hseen' : "<!DOCTYPE".toList.isPrefixOf s'.rest = "<!DOCTYPE".toList.isPrefixOf s.rest :=
    h.twin.sees_eq (.inl rfl) (by decide)
  obtain ⟨hseen, piece, m, more, hpiece, hmore, rfl⟩ | ⟨hseen, rfl, rfl⟩ := typed_iff.mp htyped
  · have htext := prefix_drop hseen
    rw [htext] at hfree
    obtain ⟨body, rest, hbody, hplain, hrest⟩ := hfree.of_type
    rw [hbody] at htext
    have hm := rest_of_documentType hpiece htext hplain
    have hfound := Token.Found.type rest hplain
    rw [← htext, ← hm] at hfound
    obtain ⟨m', hpiece', -, hm'⟩ := h.aside (repeats_documentType h.like.undeclared htext hplain hpiece) hfound
    obtain ⟨t', hmore', ht⟩ := hm'.allAsides hmore (hm ▸ hrest)
    exact ⟨t', typed_iff.mpr (.inl ⟨hseen'.trans hseen, piece, m', more, hpiece', hmore', rfl⟩), ht⟩
  · exact ⟨s', typed_iff.mpr (.inr ⟨hseen'.trans hseen, rfl, rfl⟩), h⟩

theorem Abreast.body (h : Abreast attr s s') (hbody : body s = .ok (pieces, t)) (hfree : OghamFree s.rest)
    (hattr : isLocalName attr = true) (hxmlns : attr ≠ "xmlns".toList) :
    ∃ pieces' t', Reading.body s' = .ok (pieces', t') ∧ Abreast attr t t' := by
  obtain ⟨before, m, lead, k, inner, l, after, hbefore, hlead, hopen, hroot, hafter, hempty, rfl⟩ := body_iff.mp hbody
  obtain ⟨m', hbefore', hm⟩ := h.allAsides hbefore hfree
  have hfree₁ := (allAsides_retraced hbefore hfree).1.free
  obtain ⟨k', hlead', hk⟩ := hm.typed hlead hfree₁
  have hfree₂ := (typed_retraced hlead hm.like.undeclared hfree₁).1.free
  have hs : k.rest = '<' :: k.rest.drop 1 := prefix_drop hopen
  obtain ⟨inner', l', hroot', hl⟩ := hk.root hroot hs hfree₂ hattr hxmlns
  obtain ⟨t', hafter', ht⟩ := hl.allAsides hafter (root_retraced hroot hs hfree₂).1.free
  have hopen' : ['<'].isPrefixOf k'.rest = true := by
    obtain ⟨y', hy'⟩ : ∃ y', k'.rest = '<' :: y' := ⟨_, cons_of_head? (hk.twin.head?_eq.trans (by rw [hs]; rfl))⟩
    rw [hy']
    rfl
  have hempty' : t'.rest = [] := List.head?_eq_none_iff.mp (ht.twin.head?_eq.trans (by rw [hempty]; rfl))
  exact ⟨_, t', body_iff.mpr ⟨before, m', lead, k', inner', l', after, hbefore', hlead', hopen', hroot', hafter', hempty',
    rfl⟩, ht⟩

/-- A document is read in the twin. -/
theorem Abreast.document (h : Abreast attr s s') (hdocument : document s = .ok (pieces, t)) (hfree : OghamFree s.rest)
    (hattr : isLocalName attr = true) (hxmlns : attr ≠ "xmlns".toList) :
    ∃ pieces' t', Reading.document s' = .ok (pieces', t') ∧ Abreast attr t t' := by
  obtain ⟨⟨c, hc, hnull⟩, m, ⟨hdeclared, hdeclaration⟩ | ⟨hdeclared, rfl⟩, hbody⟩ := document_iff.mp hdocument
  · obtain ⟨y, hstart, hends⟩ := declaration_ends hdeclared hdeclaration
    obtain ⟨raw, hfound⟩ := Token.Found.of_endsAt .instruction hends
    have hfree' : OghamFree m.rest := OghamFree.of_aside .instruction hends (hstart ▸ hfree)
    rw [← hstart] at hfound
    obtain ⟨m', hdeclaration', -, hm⟩ := h.aside (Steady.declaration s () m h.like.undeclared hdeclaration) hfound
    obtain ⟨pieces', t', hbody', ht⟩ := hm.body hbody hfree' hattr hxmlns
    exact ⟨pieces', t', document_iff.mpr ⟨⟨c, h.twin.head?_eq.trans hc, hnull⟩, m',
      .inl ⟨h.isDeclared_eq.trans hdeclared, hdeclaration'⟩, hbody'⟩, ht⟩
  · obtain ⟨pieces', t', hbody', ht⟩ := h.body hbody hfree hattr hxmlns
    exact ⟨pieces', t', document_iff.mpr ⟨⟨c, h.twin.head?_eq.trans hc, hnull⟩, s',
      .inr ⟨h.isDeclared_eq.trans hdeclared, rfl⟩, hbody'⟩, ht⟩

end Reading

end MarkupIds.Xml
