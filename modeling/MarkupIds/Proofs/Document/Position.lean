import MarkupIds.Document
import MarkupIds.Proofs.Html.Ledger
import MarkupIds.Proofs.Xml.Position

/-! Ids made of paths tell where an element stands in the tree of its document. Neither the selector
nor the lists of names nor the ids that are there already change a position, and no id is numbered
to keep it apart from others. -/

namespace MarkupIds

open MarkupIds.Markup (Node Numbered)

namespace Html

theorem provided_served {o : Options} (hstrategy : o.strategy = .path) (picked : Picked) (nodes : List Node) :
    Generator.provided (served o picked (Numbered.list nodes)) =
      (Numbered.list nodes).filterMap fun e =>
        (e.pathId? o (Text.lower o.attr) picked).map (e, ·) := by
  have hrequests : ((Numbered.list nodes).map fun e => (e, request o picked e)).filterMap Prod.snd =
      (Numbered.list nodes).filterMap (request o picked) := List.filterMap_map
  have hapart : (((Numbered.list nodes).map fun e => (e, request o picked e)).filterMap
      Prod.snd).Pairwise Generator.EndApart := by
    rw [hrequests]
    refine Numbered.pairwise_endApart (fun e element h => ?_) nodes
    obtain ⟨-, hsome⟩ := Option.ite_none_right_eq_some.mp h
    exact Option.some.inj hsome ▸ rfl
  rw [served, Generator.serve_of_endApart hstrategy hapart, Generator.provided, List.map_map,
    List.filterMap_map]
  refine List.filterMap_congr fun e _ => ?_
  simp only [Function.comp, request, Numbered.pathId?]
  change Option.map _ (Option.map _ (if e.admitted o (Text.lower o.attr) picked then _ else _)) = _
  split
  · exact congrArg (fun id => some (e, id)) (Numbered.candidate_eq_pathId hstrategy e rfl rfl)
  · rfl

end Html

namespace Document

/-- Where ids are made of paths, exactly those elements of a tree get one that are picked and admitted,
and the id of each is its name and its position: the ranks, in document order, of the elements around
it and its own. So it is for the tree that the tokens of an XML document spell, and for the tree
that is read from an HTML document. -/
theorem assign_path_ids {o : Options} (hstrategy : o.strategy = .path) :
    (∀ nodes, (Numbered.list nodes).map Numbered.path = Node.positions nodes) ∧
    (∀ source out nodes, Xml.Spells (Xml.Token.list source).1 nodes →
      (Xml.assign source o).result = .ok out →
      out = (Xml.withIds o (Xml.Token.list source).1
        ((Numbered.list nodes).map
          (Numbered.pathId? o o.attr (Xml.pickedIn o source)))).flatMap Xml.Token.text) ∧
    (∀ source out nodes, Html.parse source = .ok nodes → (Html.assign source o).result = .ok out →
      ∃ selector edits, o.readSelector .html = .ok selector ∧
        List.Forall₂ (fun edit e => Html.editFor o source (Text.lineStarts source) e.1 e.2 = .ok edit)
          edits ((Numbered.list nodes).filterMap fun e =>
            (e.pathId? o (Text.lower o.attr) (Html.pickedIn selector nodes)).map (e, ·)) ∧
        Edit.splice source edits = .ok out) := by
  refine ⟨Numbered.map_path_list, ?_, ?_⟩
  · intro source out nodes hnodes h
    exact Xml.assign_positions hstrategy hnodes h
  · intro source out nodes hnodes h
    obtain ⟨selector, nodes', edits, hselector, hnodes', hedits, hsplice, -⟩ := Html.assign_ok h
    obtain rfl : nodes = nodes' := Except.ok.inj (hnodes.symm.trans hnodes')
    rw [Html.provided_served hstrategy] at hedits
    exact ⟨selector, edits, hselector, hedits, hsplice⟩

theorem assign_path_ids_excluded :
    let o : Options := { strategy := .path, excluded := ["i"] }
    let source := "<a-1><i/>x<b></b></a-1>".toList
    let out := "<a-1 data-ast-id=\"el-a-1-0\"><i/>x<b data-ast-id=\"el-b-0-2\"></b></a-1>".toList
    o.strategy = .path ∧ (Xml.assign source o).result = .ok out ∧
      (Html.assign source o).result = .ok out ∧
      (∃ nodes, Xml.Spells (Xml.Token.list source).1 nodes ∧
        Node.positions nodes = [[0], [0, 1], [0, 2]] ∧
        (Numbered.list nodes).map Numbered.path = Node.positions nodes ∧
        out = (Xml.withIds o (Xml.Token.list source).1
          ((Numbered.list nodes).map
            (Numbered.pathId? o o.attr (Xml.pickedIn o source)))).flatMap Xml.Token.text) ∧
      ∃ nodes selector edits, Html.parse source = .ok nodes ∧ o.readSelector .html = .ok selector ∧
        List.Forall₂ (fun edit e => Html.editFor o source (Text.lineStarts source) e.1 e.2 = .ok edit)
          edits ((Numbered.list nodes).filterMap fun e =>
            (e.pathId? o (Text.lower o.attr) (Html.pickedIn selector nodes)).map (e, ·)) ∧
        Edit.splice source edits = .ok out := by
  intro o source out
  have hxml : (Xml.assign source o).result = .ok out := Outcome.result_eq_ok_iff.mpr (by decide +kernel)
  have hhtml : (Html.assign source o).result = .ok out := Outcome.result_eq_ok_iff.mpr (by decide +kernel)
  let start (name tail : String) : Xml.StartTag := ⟨name.toList, [], tail.toList⟩
  have htokens : (Xml.Token.list source).1 =
      .opening (start "a-1" ">") :: ([.opening (start "i" "/>"), .other "x".toList] ++
        .opening (start "b" ">") :: ([] ++ .closing "</b>".toList :: []) ++
        .closing "</a-1>".toList :: []) := by decide +kernel
  have hspells : Xml.Spells (Xml.Token.list source).1
      [.element (start "a-1" ">").tag
        [.element (start "i" "/>").tag [], .element (start "b" ">").tag []]] := by
    rw [htokens]
    refine .pair _ (by decide) (.single (by decide) (.other _ ?_)) .nil
    exact .pair _ (by decide) .nil .nil
  obtain ⟨hpaths, hids, hedits⟩ := assign_path_ids (o := o) rfl
  obtain ⟨selector, nodes, edits, -, hnodes, -⟩ := Html.assign_ok hhtml
  obtain ⟨selector, edits, hselector, hall, hsplice⟩ := hedits source out nodes hnodes hhtml
  exact ⟨rfl, hxml, hhtml, ⟨_, hspells, by decide +kernel, hpaths _, hids source out _ hspells hxml⟩,
    nodes, selector, edits, hnodes, hselector, hall, hsplice⟩

end Document

end MarkupIds
