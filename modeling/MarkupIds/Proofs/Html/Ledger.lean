import MarkupIds.Proofs.Markup.Position
import MarkupIds.Proofs.Splice
import MarkupIds.Html.Assign

/-! What a run makes of the elements of an HTML document: each element that is admitted gets an id of
its own, and one edit of its start tag writes it. -/

namespace MarkupIds.Html

open MarkupIds.Markup (Node Numbered)

/-- What an element asks of the generator, if it may get an id. -/
def request (o : Options) (picked : Picked) (e : Numbered) : Option Descriptor :=
  if picked.has e.rank && o.admits e.tag.name (existing? o e) then some (descriptor o e) else none

def served (o : Options) (picked : Picked) (elements : List Numbered) :
    List (Numbered × Option String) :=
  Generator.serve o [] (elements.map fun e => (e, request o picked e))

def pickedIn (selector : Option Selector.Choice) (nodes : List Node) : Picked :=
  selector.map fun choice => Selector.ranksIn choice false nodes

/-- An edit writes the start tag anew that stands at the element's place and has its name. -/
theorem editFor_ok {o : Options} {source : List Char} {starts : List Nat} {e : Numbered} {id : String}
    {edit : Edit} (h : editFor o source starts e id = .ok edit) :
    ∃ t, StartTag.read? (source.drop (Text.offsetIn starts e.tag.position)) = some t ∧
      String.ofList (Text.lower t.name) = e.tag.name ∧
      edit = ⟨Text.offsetIn starts e.tag.position,
        Text.offsetIn starts e.tag.position + t.text.length,
        (t.withId o.overwrite o.attr id.toList).text⟩ := by
  simp only [editFor] at h
  split at h
  next => cases h
  next t ht =>
    split at h
    next hname =>
      cases h
      exact ⟨t, ht, beq_iff_eq.mp hname, rfl⟩
    next => cases h

theorem visit_eq (o : Options) (source : List Char) (starts : List Nat) (picked : Picked)
    (p : Progress) (e : Numbered) :
    visit o source starts picked p e =
      match request o picked e with
      | none => .ok p
      | some element =>
        let id := Generator.firstFree p.generator.used (Generator.candidate element o)
        (editFor o source starts e id).map fun edit =>
          { generator := { p.generator with used := id :: p.generator.used }
            edits := edit :: p.edits } := by
  unfold visit request
  split
  · simp only [Generator.generate, Generator.ensureUnique]
    split <;> simp_all [Except.map]
  · rfl

theorem foldlM_visit {o : Options} {source : List Char} {starts : List Nat} {picked : Picked}
    {elements : List Numbered} {p q : Progress}
    (h : elements.foldlM (visit o source starts picked) p = .ok q) :
    ∃ edits, q.edits = edits.reverse ++ p.edits ∧
      List.Forall₂ (fun edit a => editFor o source starts a.1 a.2 = .ok edit) edits
        (Generator.provided (Generator.serve o p.generator.used
          (elements.map fun e => (e, request o picked e)))) := by
  induction elements generalizing p with
  | nil =>
      cases h
      exact ⟨[], rfl, .nil⟩
  | cons e elements ih =>
      rw [List.foldlM_cons, visit_eq] at h
      cases hr : request o picked e with
      | none =>
          rw [hr] at h
          simpa only [List.map_cons, hr, Generator.serve, Generator.provided_cons_none] using ih h
      | some element =>
          rw [hr] at h
          cases hedit : editFor o source starts e
              (Generator.firstFree p.generator.used (Generator.candidate element o)) with
          | error failure =>
              simp only [hedit] at h
              cases h
          | ok edit =>
              simp only [hedit] at h
              obtain ⟨edits, hq, hedits⟩ := ih h
              refine ⟨edit :: edits, by rw [hq]; simp, ?_⟩
              simp only [List.map_cons, hr, Generator.serve, Generator.provided_cons_some]
              exact .cons hedit hedits

section Walking

variable (o : Options) (source : List Char) (picked : Picked)

def progressFor (elements : List Numbered) : Except Failure Progress :=
  elements.foldlM (visit o source (Text.lineStarts source) picked) {}

namespace Round

/-- A walk that comes to an element and has passed it with all that it holds. -/
def pass (node : Node) (r : Round) : Round where
  path := r.path
  count := r.count + node.elementCount
  progress := r.progress >>= fun p =>
    (Numbered.ofNode r.path r.count node).foldlM (visit o source (Text.lineStarts source) picked) p

theorem foldl_pass (nodes : List Node) (r : Round) :
    nodes.foldl (fun r node => pass o source picked node r) r =
      { path := r.path
        count := r.count + Node.countElements nodes
        progress := r.progress >>= fun p =>
          (Numbered.listFrom r.path r.count nodes).foldlM (visit o source (Text.lineStarts source) picked) p } := by
  induction nodes generalizing r with
  | nil =>
      simp only [List.foldl_nil, Node.countElements, Numbered.listFrom, List.foldlM_nil, Nat.add_zero]
      rw [show (fun p : Progress => (pure p : Except Failure Progress)) = pure from rfl, bind_pure]
  | cons node nodes ih =>
      rw [List.foldl_cons, ih]
      simp only [pass, Node.countElements, Numbered.listFrom, List.foldlM_append, bind_assoc, Nat.add_assoc]

theorem total_steps (nodes : List Node) : Walk.total Node.steps nodes = Node.stepsOver nodes := by
  induction nodes with
  | nil => rfl
  | cons node nodes ih => rw [Walk.total, ih, Node.stepsOver]

/-- The walk with a stack does what the recursion over the document does. -/
theorem follows : (giving o source picked).Follows (pass o source picked) Node.steps where
  through_eq
    | .text .., r => by
        simp only [giving, pass, Node.isElement, Node.children, Node.elementCount, Numbered.ofNode, enter,
          List.foldl_nil, List.foldlM_nil, Nat.add_zero]
        rw [show (fun p : Progress => (pure p : Except Failure Progress)) = pure from rfl, bind_pure]
        rfl
    | .element tag children, r => by
        change _ = leave (children.foldl (fun r node => pass o source picked node r)
          (enter o source (Text.lineStarts source) picked (.element tag children) r))
        rw [foldl_pass]
        simp only [pass, enter, leave, Node.elementCount, Numbered.ofNode, List.foldlM_cons, List.dropLast_concat,
          bind_assoc, Nat.add_assoc]
  le_steps
    | .text .. => Nat.le_refl 1
    | .element tag children => by
        change 1 + Walk.total Node.steps children + 1 ≤ _
        rw [total_steps, Node.steps]
        omega

theorem ofNodes_eq (nodes : List Node) :
    ofNodes o source picked nodes =
      { count := (Numbered.list nodes).length, progress := progressFor o source picked (Numbered.list nodes) } := by
  have hrun := (follows o source picked).run_enter nodes {}
  rw [total_steps, foldl_pass, Nat.zero_add, ← Numbered.length_listFrom [] 0] at hrun
  exact congrArg Prod.snd hrun

end Round

end Walking

/-- A document that gets its ids: the edits are one for each element that is given an id, and the
result is the document with these edits. -/
theorem assign_ok {source out : List Char} {o : Options} (h : (assign source o).result = .ok out) :
    ∃ selector nodes edits, o.readSelector .html = .ok selector ∧ parse source = .ok nodes ∧
      List.Forall₂ (fun edit a => editFor o source (Text.lineStarts source) a.1 a.2 = .ok edit) edits
        (Generator.provided (served o (pickedIn selector nodes) (Numbered.list nodes))) ∧
      Edit.splice source edits = .ok out ∧
      (assign source o).events =
        [o.assignedEvent .html (Numbered.list nodes).length edits.length] := by
  unfold assign at h ⊢
  cases hs : o.readSelector .html with
  | error failure => simp only [hs] at h; cases h
  | ok selector =>
      cases hp : parse source with
      | error refusal => simp only [hs, hp] at h; cases h
      | ok nodes =>
          simp only [hs, hp, Round.ofNodes_eq, progressFor] at h ⊢
          cases hf : (Numbered.list nodes).foldlM (visit o source (Text.lineStarts source)
              (pickedIn selector nodes)) {} with
          | error failure =>
              simp only [pickedIn] at hf
              simp only [hf] at h
              cases h
          | ok q =>
              obtain ⟨edits, hq, hedits⟩ := foldlM_visit hf
              simp only [pickedIn] at hf
              simp only [hf, hq, List.append_nil, List.reverse_reverse, List.length_reverse] at h ⊢
              refine ⟨selector, nodes, edits, rfl, rfl, hedits, ?_, rfl⟩
              cases hsplice : Edit.splice source edits with
              | error start => simp only [hsplice] at h; cases h
              | ok text =>
                  simp only [hsplice] at h
                  cases h
                  rfl

end MarkupIds.Html
