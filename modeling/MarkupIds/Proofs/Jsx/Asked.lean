import MarkupIds.Proofs.Jsx.Rewriting

/-! What a program asks of the generator, as far as its trees tell without what start tags say: of each start tag no
more counts than its name and whether it is accepted. -/

namespace MarkupIds

namespace Generator

variable {α β : Type}

/-- How many ask for an id depends only on what is asked for. -/
theorem asked_congr {requests : List (α × Option Descriptor)} {requests' : List (β × Option Descriptor)}
    (h : requests.map Prod.snd = requests'.map Prod.snd) : asked requests = asked requests' := by
  have hcount {γ : Type} (requests : List (γ × Option Descriptor)) :
      asked requests = ((requests.map Prod.snd).filter Option.isSome).length := by
    rw [List.filter_map, List.length_map]
    rfl
  rw [hcount, h, hcount]

end Generator

namespace Jsx

section Bare

/-- The start tag of an element, without anything that it says. -/
def bareTag (tag : Option Tag) : Option Tag := tag.map fun _ => ⟨[], 0, []⟩

namespace Node

mutual

/-- A node without what its start tags say. -/
def bare : Node → Node
  | .element tag children => .element (bareTag tag) (allBare children)
  | .expression literal inside => .expression literal (allBare inside)
  | .text content => .text content

/-- Nodes without what their start tags say. -/
def allBare : List Node → List Node
  | [] => []
  | node :: rest => node.bare :: allBare rest

end

variable {nodes rest : List Node}

theorem exists_of_allBare_element {tag : Option Tag} {children : List Node}
    (h : allBare (.element tag children :: rest) = allBare nodes) :
    ∃ tag' children' rest', nodes = .element tag' children' :: rest' ∧ bareTag tag = bareTag tag' ∧
      allBare children = allBare children' ∧ allBare rest = allBare rest' := by
  cases nodes with
  | nil => cases h
  | cons node rest' =>
      obtain ⟨hnode, hrest⟩ := List.cons.inj h
      cases node with
      | element tag' children' =>
          obtain ⟨htag, hchildren⟩ := Node.element.inj hnode
          exact ⟨tag', children', rest', rfl, htag, hchildren, hrest⟩
      | _ => cases hnode

theorem exists_of_allBare_expression {literal : Option (List Char)} {inside : List Node}
    (h : allBare (.expression literal inside :: rest) = allBare nodes) :
    ∃ inside' rest', nodes = .expression literal inside' :: rest' ∧ allBare inside = allBare inside' ∧
      allBare rest = allBare rest' := by
  cases nodes with
  | nil => cases h
  | cons node rest' =>
      obtain ⟨hnode, hrest⟩ := List.cons.inj h
      cases node with
      | expression literal' inside' =>
          obtain ⟨rfl, hinside⟩ := Node.expression.inj hnode
          exact ⟨inside', rest', rfl, hinside, hrest⟩
      | _ => cases hnode

theorem exists_of_allBare_text {content : List Char} (h : allBare (.text content :: rest) = allBare nodes) :
    ∃ rest', nodes = .text content :: rest' ∧ allBare rest = allBare rest' := by
  cases nodes with
  | nil => cases h
  | cons node rest' =>
      obtain ⟨hnode, hrest⟩ := List.cons.inj h
      cases node with
      | text content' =>
          obtain rfl := Node.text.inj hnode
          exact ⟨rest', rfl, hrest⟩
      | _ => cases hnode

theorem pieces_allBare (nodes : List Node) : pieces (allBare nodes) = pieces nodes := by
  induction nodes using Node.list_induction with
  | nil => rfl
  | element tag children rest ihchildren ihrest =>
      rw [allBare, pieces, pieces, ihrest, bare, piece, piece, ihchildren]
  | expression literal inside rest _ ihrest =>
      rw [allBare, pieces, pieces, ihrest, bare, piece, piece]
  | text content rest ih =>
      rw [allBare, pieces, pieces, ih, bare]

theorem length_tags_allBare (nodes : List Node) : (tags (allBare nodes)).length = (tags nodes).length := by
  induction nodes using Node.list_induction with
  | nil => rfl
  | element tag children rest ihchildren ihrest =>
      cases tag <;> simp [allBare, bare, bareTag, tags, tagsIn, ihchildren, ihrest]
  | expression literal inside rest ihinside ihrest =>
      simp [allBare, bare, tags, tagsIn, ihinside, ihrest]
  | text content rest ih => simp [allBare, bare, tags, tagsIn, ih]

end Node

end Bare

section Requests

open Node

variable {o : Options}

/-- What matters of a start tag to the generator: its name, and whether it is accepted. -/
def Tag.asks (o : Options) (t : Tag) : List Char × Bool := (t.name, t.isAccepted o)

/-- A request tells of a start tag no more than that. -/
theorem request_congr {t u : Tag} (hasks : t.asks o = u.asks o)
    {children children' : List Node} (hchildren : allBare children = allBare children') (path : List Nat) :
    request o path t children = request o path u children' := by
  obtain ⟨hname, haccepted⟩ := Prod.mk.inj hasks
  have htext : Node.textOf children = Node.textOf children' := by
    rw [Node.textOf, ← pieces_allBare, hchildren, pieces_allBare, Node.textOf]
  rw [request, request, haccepted, hname, htext]

theorem requestOf_congr {tag tag' : Option Tag} (hbare : bareTag tag = bareTag tag')
    (hasks : tag.toList.map (Tag.asks o) = tag'.toList.map (Tag.asks o))
    {children children' : List Node} (hchildren : allBare children = allBare children') (path : List Nat) :
    (requestOf o path tag children).map Prod.snd = (requestOf o path tag' children').map Prod.snd := by
  cases tag with
  | none =>
      obtain rfl := Option.map_eq_none_iff.mp hbare.symm
      rfl
  | some t =>
      obtain ⟨u, rfl, -⟩ := Option.map_eq_some_iff.mp hbare.symm
      exact congrArg (fun r => [r]) (request_congr (List.singleton_inj.mp hasks) hchildren path)

/-- Lists of nodes that differ only in what their start tags say have as many of these. -/
theorem length_tags_congr {nodes nodes' : List Node} (h : allBare nodes = allBare nodes') :
    (tags nodes).length = (tags nodes').length := by
  rw [← length_tags_allBare, h, length_tags_allBare]

/-- What two programs ask of the generator is the same if they differ only in what their start tags say besides. -/
theorem requests_congr {nodes nodes' : List Node} (hbare : allBare nodes = allBare nodes')
    (hasks : (tags nodes).map (Tag.asks o) = (tags nodes').map (Tag.asks o)) (path : List Nat) (counter : Nat) :
    (requests o path counter nodes).map Prod.snd = (requests o path counter nodes').map Prod.snd := by
  induction nodes using Node.list_induction generalizing nodes' path counter with
  | nil =>
      cases nodes' with
      | nil => rfl
      | cons node' rest' => cases hbare
  | element tag children rest ihchildren ihrest =>
      obtain ⟨tag', children', rest', rfl, htag, hchildren, hrest⟩ := exists_of_allBare_element hbare
      simp only [tags, tagsIn, List.map_append, List.append_assoc] at hasks
      obtain ⟨hown, hasks⟩ := List.append_inj hasks (by cases tag <;> cases tag' <;> first | rfl | cases htag)
      obtain ⟨hinside, hbehind⟩ := List.append_inj hasks (by simp only [List.length_map, length_tags_congr hchildren])
      have hfirst := requestOf_congr htag hown hchildren (path ++ [counter])
      have hhere : (requestsIn o path counter (.element tag children)).map Prod.snd =
          (requestsIn o path counter (.element tag' children')).map Prod.snd := by
        simp only [requestsIn, List.map_append, hfirst, Generator.asked_congr hfirst, ihchildren hchildren hinside]
      simp only [requests, List.map_append, hhere, Generator.asked_congr hhere, ihrest hrest hbehind]
  | expression literal inside rest ihinside ihrest =>
      obtain ⟨inside', rest', rfl, hchildren, hrest⟩ := exists_of_allBare_expression hbare
      simp only [tags, tagsIn, List.map_append] at hasks
      obtain ⟨hinside, hbehind⟩ := List.append_inj hasks (by simp only [List.length_map, length_tags_congr hchildren])
      have hhere := ihinside hchildren hinside path counter
      simp only [requests, requestsIn, List.map_append, hhere, Generator.asked_congr hhere, ihrest hrest hbehind]
  | text content rest ih =>
      obtain ⟨rest', rfl, hrest⟩ := exists_of_allBare_text hbare
      exact ih hrest hasks path counter

section Served

variable {nodes : List Node}

theorem map_fst_served (o : Options) (nodes : List Node) : (served o nodes).map Prod.fst = tags nodes := by
  rw [served, Generator.map_fst_serve, map_fst_requests]

/-- A start tag that gets an id is one of those of the program, and accepted. -/
theorem accepted_of_mem_served {t : Tag} {id : String} (h : (t, some id) ∈ served o nodes) :
    t ∈ tags nodes ∧ t.isAccepted o = true := by
  have hmem := List.mem_map_of_mem (f := Prod.fst) (Generator.mem_provided h)
  rw [map_fst_provided_served] at hmem
  exact List.mem_filter.mp hmem

/-- One that gets none is refused. -/
theorem not_isAccepted_of_mem_served {e : Tag × Option String} (he : e ∈ served o nodes)
    (hnone : e.2 = none) : e.1.isAccepted o = false := by
  obtain ⟨t, given⟩ := e
  obtain rfl : given = none := hnone
  exact (isSome_of_mem_requests (Generator.none_mem_of_mem_serve he)).symm

end Served

end Requests

end Jsx

end MarkupIds
