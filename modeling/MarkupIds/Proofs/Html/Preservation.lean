import MarkupIds.Proofs.Html.Elements

/-! What a document with ids is read as. All but the attribute for ids is as it was before, and a second
run leaves every id in its place. -/

namespace MarkupIds.Markup

namespace Node

mutual

theorem elementCount_forget (attr : String) : (node : Node) →
    (node.forget attr).elementCount = node.elementCount
  | .element tag children => by
      rw [forget, elementCount, elementCount, countElements_forgetAll attr children]
  | .text .. => rfl

theorem countElements_forgetAll (attr : String) : (nodes : List Node) →
    countElements (forgetAll attr nodes) = countElements nodes
  | [] => rfl
  | node :: rest => by
      rw [forgetAll, countElements, countElements, elementCount_forget attr node,
        countElements_forgetAll attr rest]

end

end Node

namespace Numbered

/-- The element without an attribute and without places. -/
def forget (attr : String) (e : Numbered) : Numbered :=
  { e with tag := e.tag.forget attr, children := Node.forgetAll attr e.children }

mutual

theorem ofNode_forget (attr : String) (outer : List Nat) (rank : Nat) : (node : Node) →
    ofNode outer rank (node.forget attr) = (ofNode outer rank node).map (forget attr)
  | .element tag children => by
      rw [Node.forget, ofNode, ofNode, List.map_cons, listFrom_forgetAll attr _ _ children]
      rfl
  | .text .. => rfl

theorem listFrom_forgetAll (attr : String) (outer : List Nat) (rank : Nat) : (nodes : List Node) →
    listFrom outer rank (Node.forgetAll attr nodes) = (listFrom outer rank nodes).map (forget attr)
  | [] => rfl
  | node :: rest => by
      rw [Node.forgetAll, listFrom, listFrom, List.map_append, ofNode_forget attr outer rank node,
        Node.elementCount_forget, listFrom_forgetAll attr outer _ rest]

end

theorem list_forget (attr : String) (nodes : List Node) :
    list (nodes.map (Node.forget attr)) = (list nodes).map (forget attr) := by
  rw [← Node.forgetAll_eq_map]
  exact listFrom_forgetAll attr [] 0 nodes

theorem ownText_forget (attr : String) (e : Numbered) : (e.forget attr).ownText = e.ownText := by
  have hplain (node : Node) : (node.forget attr).plainText? = node.plainText? := by
    cases node with
    | element tag children => rfl
    | text kind content => cases kind <;> rfl
  have hchildren : (Node.forgetAll attr e.children).filterMap Node.plainText? =
      e.children.filterMap Node.plainText? := by
    rw [Node.forgetAll_eq_map, List.filterMap_map]
    exact congrArg (List.filterMap · e.children) (funext hplain)
  unfold ownText
  rw [← hchildren]
  rfl

end Numbered

end MarkupIds.Markup

namespace MarkupIds.Html

open MarkupIds.Markup (Node Tag Numbered)
open MarkupIds.Text (Position)

variable {o : Options}

/-- The name under which the attribute for ids is read. -/
def idName (o : Options) : String := String.ofList (Text.lower o.attr)

/-- A paragraph with a void element in it. -/
def paragraph : List Char := "<p class=\"x\">a<br/>b</p>".toList

theorem isPlain_paragraph : IsPlain paragraph := by
  have hconstructs : constructs paragraph =
      [⟨"<p class=\"x\">".toList, [.opening "p" [("class", "x")] false], true⟩,
        ⟨"a".toList, [.text ['a']], false⟩, ⟨"<br/>".toList, [.opening "br" [] true], true⟩,
        ⟨"b".toList, [.text ['b']], false⟩, ⟨"</p>".toList, [.closing "p"], false⟩] := by
    decide +kernel
  have hrest : unread paragraph = [] := by decide +kernel
  have hclass : (WrittenAttribute.ofId "class".toList "x".toList).Plain :=
    WrittenAttribute.plain_ofId (by decide) _
  refine ⟨?_, ?_⟩
  · rw [hconstructs]
    simp only [List.forall_mem_cons, List.not_mem_nil, false_implies, implies_true, and_true,
      Bool.false_eq_true]
    refine ⟨fun _ => ⟨⟨['p'], [.ofId "class".toList "x".toList], [], false⟩, ?_, by decide⟩, trivial,
      fun _ => ⟨⟨['b', 'r'], [], [], true⟩, ?_, by decide⟩⟩
    · exact ⟨by decide, by decide, by simpa using hclass, rfl, by decide, rfl, by decide⟩
    · exact ⟨by decide, by decide, List.forall_mem_nil _, rfl, List.forall_mem_nil _, rfl,
        fun _ _ a ha => by cases ha⟩
  · rw [hrest]
    intro u hu
    rw [List.suffix_nil.mp hu]
    rfl

section Reread

/-- The tokens of the pieces do not change but for the attribute for ids. -/
theorem sameBut_withIds (o : Options) (pieces : List Piece) (ids : List (Option String)) (p q : Position) :
    List.Forall₂ (fun t u => SameBut (idName o) t.2 u.2)
      (Construct.placed p (pieces.map Piece.construct))
      (Construct.placed q ((Piece.withIds o pieces ids).map Piece.construct)) := by
  have hsame (tokens : List Token) (p q : Position) :
      List.Forall₂ (fun t u : Position × Token => SameBut (idName o) t.2 u.2)
        (tokens.map (p, ·)) (tokens.map (q, ·)) := by
    rw [List.forall₂_map_left_iff, List.forall₂_map_right_iff]
    exact List.forall₂_same.mpr fun token _ => .same token
  induction pieces, ids using Piece.withIds.induct generalizing p q with
  | case1 ids => exact .nil
  | case2 text tokens pieces ids ih => exact List.rel_append (hsame tokens p q) (ih _ _)
  | case3 t pieces id ids ih => exact .cons (WrittenTag.sameBut_withId t _ _ _) (ih _ _)
  | case4 t pieces ids ih => exact .cons (.same _) (ih _ _)
  | case5 t pieces ih => exact .cons (.same _) (ih _ _)

theorem forall₂_of_map_snd_eq {attr : String} {tokens tokens' : List (Position × Token)}
    (h : tokens.map Prod.snd = tokens'.map Prod.snd) :
    List.Forall₂ (fun t u => SameBut attr t.2 u.2) tokens tokens' := by
  have hequal := List.forall₂_map_left_iff.mp (List.forall₂_map_right_iff.mp
    (List.forall₂_eq_eq_eq ▸ h : List.Forall₂ (· = ·) (tokens.map Prod.snd) (tokens'.map Prod.snd)))
  refine hequal.imp fun t u htu => ?_
  rw [htu]
  exact .same _

/-- A document with ids is read as the same tree but for the attribute for ids. -/
theorem MadeOf.parse_withIds {s rest : List Char} {pieces : List Piece} {raw : Option String}
    (h : MadeOf s pieces raw rest) (o : Options) (ids : List (Option String)) {nodes : List Node}
    (hparse : parse s = .ok nodes) :
    ∃ nodes', parse (Piece.textOf (Piece.withIds o pieces ids) ++ rest) = .ok nodes' ∧
      nodes.map (Node.forget (idName o)) = nodes'.map (Node.forget (idName o)) := by
  have hraw : IsRawState raw := h.pass.isRawState isRawState_none
  obtain ⟨fuel, hfuel, hscan⟩ := h.scan_eq
  obtain ⟨fuel', hfuel', hscan'⟩ := (h.withIds o ids).scan_eq
  have hcontents := contents_scanFrom hraw
    (Position.start.advance (Piece.textOf pieces))
    (Position.start.advance (Piece.textOf (Piece.withIds o pieces ids))) hfuel hfuel'
  obtain ⟨tokens, htokens, rfl⟩ := exists_of_map_eq_ok hparse
  rw [hscan] at htokens
  obtain ⟨more, hmore, rfl⟩ := exists_of_map_eq_ok htokens
  rw [hmore] at hcontents
  obtain ⟨more', hmore', heq⟩ := exists_of_map_eq_ok hcontents.symm
  rw [hmore'] at hscan'
  refine ⟨_, by rw [parse, hscan']; rfl, ?_⟩
  exact forget_treeOf (List.rel_append (sameBut_withIds o pieces ids _ _)
    (forall₂_of_map_snd_eq heq.symm))

end Reread

/-- Ids in the start tags change nothing that is read but the attribute for ids. -/
theorem assign_preserves {source out : List Char} (hplain : IsPlain source)
    (h : (assign source o).result = .ok out) :
    ∃ nodes nodes', parse source = .ok nodes ∧ parse out = .ok nodes' ∧
      nodes.map (Node.forget (idName o)) = nodes'.map (Node.forget (idName o)) := by
  obtain ⟨selector, nodes, edits, hselector, hparse, -, -, -⟩ := assign_ok h
  obtain ⟨pieces, raw, hmade⟩ := hplain.exists_madeOf
  rw [hmade.assign_result hselector hparse] at h
  cases h
  obtain ⟨nodes', hparse', hforget⟩ := hmade.parse_withIds o _ hparse
  exact ⟨nodes, nodes', hparse, hparse', hforget⟩

theorem assign_preserves_paragraph :
    let o : Options := { strategy := .path }
    let out := "<p class=\"x\" data-ast-id=\"el-p-0\">a<br data-ast-id=\"el-br-0-1\"/>b</p>".toList
    IsPlain paragraph ∧ (assign paragraph o).result = .ok out ∧
      ∃ nodes nodes', parse paragraph = .ok nodes ∧ parse out = .ok nodes' ∧
        nodes.map (Node.forget (idName o)) = nodes'.map (Node.forget (idName o)) := by
  intro o out
  have hresult : (assign paragraph o).result = .ok out :=
    Outcome.result_eq_ok_iff.mpr (by decide +kernel)
  exact ⟨isPlain_paragraph, hresult, assign_preserves isPlain_paragraph hresult⟩

/-- The values of an attribute over all elements of a document. -/
def valuesOf (name : String) (source : List Char) : Option (List (Option String)) :=
  (parse source).toOption.map fun nodes => (Node.tagsOf nodes).map (·.attribute? name)

/-- A value without quotes runs into the slash of the end when it is read, and not when an id is written
behind it. -/
theorem assign_cuts_slash_off :
    let o : Options := { strategy := .path }
    let source := "<a b=c/>".toList
    let out := "<a b=c data-ast-id=\"el-a-0\"/>".toList
    (assign source o).result = .ok out ∧ valuesOf "b" source = some [some "c/"] ∧
      valuesOf "b" out = some [some "c"] :=
  ⟨Outcome.result_eq_ok_iff.mpr (by decide +kernel), by decide +kernel, by decide +kernel⟩

section SecondRun

theorem descriptor_forget (o : Options) (attr : String) (e : Numbered) :
    descriptor o (e.forget attr) = descriptor o e := by
  unfold descriptor
  rw [Numbered.ownText_forget]
  rfl

/-- Where ids are overwritten, what an element asks for does not depend on the id it has. -/
theorem request_forget (hoverwrite : o.overwrite = true) (attr : String) (e : Numbered) :
    request o none (e.forget attr) = request o none e := by
  have hadmits (existing : Option (List Char)) :
      o.admits e.tag.name existing = o.admits e.tag.name none := by
    unfold Options.admits
    rw [hoverwrite, Bool.or_true, Bool.or_true]
  unfold request
  rw [descriptor_forget, hadmits (existing? o e)]
  change (if Picked.has none e.rank && o.admits e.tag.name _ then _ else _) = _
  rw [hadmits]

/-- A second run that overwrites the ids makes the same ones. -/
theorem idsOf_congr (hoverwrite : o.overwrite = true) {nodes nodes' : List Node}
    (h : nodes.map (Node.forget (idName o)) = nodes'.map (Node.forget (idName o))) :
    idsOf o none [] (Numbered.list nodes) = idsOf o none [] (Numbered.list nodes') := by
  have hasked (nodes : List Node) :
      ((Numbered.list nodes).map fun e => (e, request o none e)).map Prod.snd =
        (Numbered.list (nodes.map (Node.forget (idName o)))).map (request o none) := by
    rw [Numbered.list_forget, List.map_map, List.map_map]
    exact List.map_congr_left fun e _ => (request_forget hoverwrite _ e).symm
  exact Generator.map_snd_serve_congr o [] (by rw [hasked, hasked, h])

theorem withIds_withIds (hoverwrite : o.overwrite = true) (pieces : List Piece)
    (ids : List (Option String)) :
    Piece.withIds o (Piece.withIds o pieces ids) ids = Piece.withIds o pieces ids := by
  induction pieces, ids using Piece.withIds.induct with
  | case1 ids => rfl
  | case2 text tokens pieces ids ih => simp only [Piece.withIds, ih]
  | case3 t pieces id ids ih =>
      simp only [Piece.withIds, ih, hoverwrite, WrittenTag.withId_withId]
  | case4 t pieces ids ih => simp only [Piece.withIds, ih]
  | case5 t pieces ih => simp only [Piece.withIds, ih]

/-- Where nobody gets an id, nothing is written. -/
theorem withIds_of_forall_none (o : Options) (pieces : List Piece) {ids : List (Option String)}
    (h : ∀ id ∈ ids, id = none) : Piece.withIds o pieces ids = pieces := by
  induction pieces, ids using Piece.withIds.induct with
  | case1 ids => rfl
  | case2 text tokens pieces ids ih => rw [Piece.withIds, ih h]
  | case3 t pieces id ids ih => cases h _ List.mem_cons_self
  | case4 t pieces ids ih => rw [Piece.withIds, ih fun id hid => h id (List.mem_cons_of_mem _ hid)]
  | case5 t pieces ih => rw [Piece.withIds, ih h]

theorem idsOf_eq_none {picked : Picked} {used : List String} {elements : List Numbered}
    (h : ∀ e ∈ elements, request o picked e = none) : ∀ id ∈ idsOf o picked used elements, id = none := by
  intro id hid
  obtain ⟨⟨e, given⟩, hmem, rfl⟩ := List.mem_map.mp hid
  cases given with
  | none => rfl
  | some id =>
      obtain ⟨element, helement, -⟩ := Generator.of_mem_serve hmem
      obtain ⟨e', he', heq⟩ := List.mem_map.mp helement
      obtain ⟨rfl, hrequest⟩ := Prod.mk.inj heq
      rw [h e' he'] at hrequest
      cases hrequest

theorem value_putAttribute (attributes : List Markup.Attribute) (a : Markup.Attribute) :
    ((Tag.putAttribute attributes a).find? fun b => b.name == a.name).map (·.value) = some a.value := by
  unfold Tag.putAttribute
  split
  next hany =>
    induction attributes with
    | nil => cases hany
    | cons b attributes ih =>
        rw [List.map_cons, List.find?_cons]
        cases hname : b.name == a.name with
        | true => simp [hname]
        | false =>
            rw [List.any_cons, hname, Bool.false_or] at hany
            simp only [Bool.false_eq_true, if_false, hname]
            exact ih hany
  next hnone =>
    have hothers : attributes.find? (fun b => b.name == a.name) = none :=
      List.find?_eq_none.mpr fun b hb hname => hnone (List.any_eq_true.mpr ⟨b, hb, hname⟩)
    rw [List.find?_append, hothers]
    simp

/-- An element whose start tag got an id has that. -/
theorem existing?_withId {e : Numbered} {t : WrittenTag} {p : Position} {id : List Char}
    (h : e.tag = (t.withId o.overwrite o.attr id).tagAt p) : existing? o e = some id := by
  obtain ⟨before, hbefore⟩ : ∃ before, (t.withId o.overwrite o.attr id).pairs =
      before ++ [(idName o, String.ofList id)] := by
    rw [WrittenTag.pairs, WrittenTag.withId, List.map_append, List.map_singleton, WrittenTag.pair_ofId]
    exact ⟨_, rfl⟩
  have hattributes : e.tag.attributes = Tag.putAttribute (Builder.attributesOf before)
      ⟨idName o, String.ofList id, none, none⟩ := by
    rw [h, WrittenTag.tagAt, hbefore, Builder.attributesOf, List.foldl_append]
    rfl
  have hvalue : e.tag.attribute? (idName o) = some (String.ofList id) := by
    rw [Tag.attribute?, hattributes]
    exact value_putAttribute (Builder.attributesOf before) ⟨idName o, String.ofList id, none, none⟩
  exact (congrArg (Option.map String.toList) hvalue).trans (congrArg some String.toList_ofList)

/-- A second run that keeps the ids finds no element to give one to. -/
theorem request_eq_none_of_withIds (hkeep : o.overwrite = false) {pieces : List Piece}
    {elements elements' : List Numbered} {p q : Position} {used : List String}
    (h : elements.map (·.tag) = (Piece.tagsFrom p pieces).map fun a => a.2.tagAt a.1)
    (h' : elements'.map (·.tag) =
      (Piece.tagsFrom q (Piece.withIds o pieces (idsOf o none used elements))).map fun a => a.2.tagAt a.1) :
    ∀ e ∈ elements', request o none e = none := by
  induction pieces generalizing elements elements' p q used with
  | nil =>
      obtain rfl := List.map_eq_nil_iff.mp h'
      exact List.forall_mem_nil _
  | cons piece pieces ih =>
      cases piece with
      | other text tokens => exact ih h h'
      | tag t =>
          cases elements with
          | nil => cases h
          | cons e elements =>
              obtain ⟨htag, h⟩ := List.cons.inj h
              cases hask : request o none e with
              | none =>
                  simp only [idsOf, List.map_cons, hask, Generator.serve, Piece.withIds, Piece.tagsFrom] at h'
                  obtain ⟨e', elements', rfl, htag', h'⟩ := List.map_eq_cons_iff.mp h'
                  refine List.forall_mem_cons.mpr ⟨?_, ih h h'⟩
                  have hname : e'.tag.name = e.tag.name :=
                    (congrArg Tag.name htag').trans (congrArg Tag.name htag).symm
                  have hattributes : e'.tag.attributes = e.tag.attributes :=
                    (congrArg Tag.attributes htag').trans (congrArg Tag.attributes htag).symm
                  have hexisting : existing? o e' = existing? o e := by
                    rw [existing?, existing?, Tag.attribute?, Tag.attribute?, hattributes]
                  rw [request, ite_eq_right_iff] at hask ⊢
                  intro hadmits
                  rw [hname, hexisting] at hadmits
                  cases hask hadmits
              | some element =>
                  simp only [idsOf, List.map_cons, hask, Generator.serve, Piece.withIds, Piece.tagsFrom] at h'
                  obtain ⟨e', elements', rfl, htag', h'⟩ := List.map_eq_cons_iff.mp h'
                  refine List.forall_mem_cons.mpr ⟨?_, ih h h'⟩
                  have hsome := existing?_withId htag'
                  have hadmits : o.admits e'.tag.name (existing? o e') = false := by
                    rw [Options.admits, hkeep, Bool.or_false, hsome]
                    rfl
                  rw [request, hadmits, Bool.and_false]
                  rfl

/-- A second run over a document with ids leaves it as it is. -/
theorem assign_idempotent {source out : List Char} (hselector : o.selector = none) (hplain : IsPlain source)
    (h : (assign source o).result = .ok out) : (assign out o).result = .ok out := by
  obtain ⟨selector, nodes, edits, hread, hparse, -, -, -⟩ := assign_ok h
  have hnone : o.readSelector .html = .ok none := by rw [Options.readSelector, hselector]
  obtain rfl : none = selector := Except.ok.inj (hnone.symm.trans hread)
  obtain ⟨pieces, raw, hmade⟩ := hplain.exists_madeOf
  rw [hmade.assign_result hnone hparse] at h
  cases h
  obtain ⟨nodes', hparse', hforget⟩ := hmade.parse_withIds o
    (idsOf o (pickedIn none nodes) [] (Numbered.list nodes)) hparse
  have hmade' := hmade.withIds o (idsOf o (pickedIn none nodes) [] (Numbered.list nodes))
  rw [hmade'.assign_result hnone hparse']
  refine congrArg (fun pieces : List Piece => Except.ok (Piece.textOf pieces ++ unread source)) ?_
  cases hoverwrite : o.overwrite with
  | true =>
      have hids := idsOf_congr hoverwrite hforget
      change Piece.withIds o _ (idsOf o none [] (Numbered.list nodes')) = _
      rw [← hids]
      exact withIds_withIds hoverwrite pieces _
  | false =>
      refine withIds_of_forall_none o _ (idsOf_eq_none ?_)
      exact request_eq_none_of_withIds hoverwrite (hmade.map_tag_list hparse) (hmade'.map_tag_list hparse')

theorem assign_idempotent_paragraph :
    let o : Options := { strategy := .path, overwrite := true }
    let out := "<p class=\"x\" data-ast-id=\"el-p-0\">a<br data-ast-id=\"el-br-0-1\"/>b</p>".toList
    o.selector = none ∧ IsPlain paragraph ∧ (assign paragraph o).result = .ok out ∧
      (assign out o).result = .ok out := by
  intro o out
  have hresult : (assign paragraph o).result = .ok out :=
    Outcome.result_eq_ok_iff.mpr (by decide +kernel)
  exact ⟨rfl, isPlain_paragraph, hresult, assign_idempotent rfl isPlain_paragraph hresult⟩

/-- An attribute that has a sign and no value takes the id for its value, and each run gives the element
one more. -/
theorem assign_takes_id_for_value :
    let o : Options := { strategy := .path }
    let source := "<a b=>".toList
    let out := "<a b= data-ast-id=\"el-a-0\">".toList
    (assign source o).result = .ok out ∧
      (assign out o).result = .ok "<a b= data-ast-id=\"el-a-0\" data-ast-id=\"el-a-0\">".toList :=
  ⟨Outcome.result_eq_ok_iff.mpr (by decide +kernel), Outcome.result_eq_ok_iff.mpr (by decide +kernel)⟩

end SecondRun

end MarkupIds.Html
