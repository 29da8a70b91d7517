import MarkupIds.Proofs.Ident.Ledger
import MarkupIds.Proofs.Jsx.Extent
import MarkupIds.Proofs.Splice

/-! What a run makes of the elements of a program. The walk over its nodes is the same as giving ids to
the start tags that ask for one, in the order in which the walk comes to them. -/

namespace MarkupIds.Jsx

/-- What a start tag asks of the generator, if its element may get an id. -/
def request (o : Options) (path : List Nat) (t : Tag) (children : List Node) : Option Descriptor :=
  if t.isAccepted o then
    some { name := String.ofList (lastPart t.name)
           path := path.map Int.ofNat
           text := if o.strategy == .slug then some (Node.textOf children) else none }
  else none

/-- The start tag of an element with what it asks of the generator. -/
def requestOf (o : Options) (path : List Nat) (tag : Option Tag) (children : List Node) :
    List (Tag × Option Descriptor) :=
  tag.toList.map fun t => (t, request o path t children)

mutual

/-- The start tags of a node with what they ask of the generator; `counter` ids were handed out before
them, and `path` tells of the elements around them. -/
def requestsIn (o : Options) (path : List Nat) (counter : Nat) : Node → List (Tag × Option Descriptor)
  | .element tag children =>
    let own := requestOf o (path ++ [counter]) tag children
    own ++ requests o (path ++ [counter]) (counter + Generator.asked own) children
  | .expression _ inside => requests o path counter inside
  | .text _ => []

/-- The start tags of some nodes with what they ask of the generator. -/
def requests (o : Options) (path : List Nat) (counter : Nat) :
    List Node → List (Tag × Option Descriptor)
  | [] => []
  | node :: rest =>
    let here := requestsIn o path counter node
    here ++ requests o path (counter + Generator.asked here) rest

end

theorem map_fst_requests (o : Options) (path : List Nat) (counter : Nat) (nodes : List Node) :
    (requests o path counter nodes).map Prod.fst = Node.tags nodes := by
  induction nodes using Node.list_induction generalizing path counter with
  | nil => rfl
  | element tag children rest ihchildren ihrest =>
      simp [requests, requestsIn, Node.tags, Node.tagsIn, requestOf, ihchildren, ihrest,
        Function.comp_def]
  | expression literal inside rest ihinside ihrest =>
      simp [requests, requestsIn, Node.tags, Node.tagsIn, ihinside, ihrest]
  | text content rest ih => exact ih _ _

/-- What is asked of the generator is the request of a start tag. -/
theorem exists_request_of_mem_requests {o : Options} {path : List Nat} {counter : Nat} {nodes : List Node}
    {r : Tag × Option Descriptor} (h : r ∈ requests o path counter nodes) :
    ∃ path' children, r.2 = request o path' r.1 children := by
  induction nodes using Node.list_induction generalizing path counter with
  | nil => cases h
  | element tag children rest ihchildren ihrest =>
      rw [requests, requestsIn, List.mem_append, List.mem_append] at h
      obtain (h | h) | h := h
      · obtain ⟨t, -, rfl⟩ := List.mem_map.mp h
        exact ⟨_, children, rfl⟩
      · exact ihchildren h
      · exact ihrest h
  | expression literal inside rest ihinside ihrest =>
      rw [requests, requestsIn, List.mem_append] at h
      obtain h | h := h
      · exact ihinside h
      · exact ihrest h
  | text content rest ih => exact ih h

/-- A start tag that asks for an id has a name. -/
theorem name_ne_nil_of_mem_requests {o : Options} {path : List Nat} {counter : Nat}
    {nodes : List Node} {t : Tag} {element : Descriptor}
    (h : (t, some element) ∈ requests o path counter nodes) : t.name ≠ [] := by
  obtain ⟨path', children, hrequest⟩ := exists_request_of_mem_requests h
  intro hname
  rw [request, Tag.isAccepted, hname] at hrequest
  cases hrequest

/-- The start tags of a program with the ids that they get. -/
def served (o : Options) (nodes : List Node) : List (Tag × Option String) :=
  Generator.serve o [] (requests o [] 0 nodes)

/-- The edits for start tags with ids. -/
def editsFor (o : Options) (given : List (Tag × String)) : List Edit := given.flatMap fun e => e.1.edits o e.2.toList

namespace Progress

variable {o : Options}

mutual

/-- The progress after a node and all inside it. -/
def enter (o : Options) (path : List Nat) : Node → Progress → Progress
  | .element tag children, p =>
    let path' := path ++ [p.generator.counter]
    let p := match tag with
      | some t => p.visit o path' t children
      | none => p
    walk o path' children p
  | .expression _ inside, p => walk o path inside p
  | .text _, p => p

/-- The progress after some nodes and all inside them. -/
def walk (o : Options) (path : List Nat) : List Node → Progress → Progress
  | [], p => p
  | node :: rest, p => walk o path rest (enter o path node p)

end

theorem walk_append (path : List Nat) (a b : List Node) (p : Progress) :
    walk o path (a ++ b) p = walk o path b (walk o path a p) := by
  induction a generalizing p with
  | nil => rfl
  | cons node a ih => exact ih _

/-- The progress after some start tags with the ids that they get. -/
def after (o : Options) (p : Progress) (entries : List (Tag × Option String)) : Progress where
  generator :=
    { used := ((Generator.provided entries).map Prod.snd).reverse ++ p.generator.used
      counter := p.generator.counter + (Generator.provided entries).length }
  edits := (editsFor o (Generator.provided entries)).reverse ++ p.edits
  visited := p.visited + entries.length
  assigned := p.assigned + (Generator.provided entries).length

theorem after_append (p : Progress) (a b : List (Tag × Option String)) :
    p.after o (a ++ b) = (p.after o a).after o b := by
  simp only [after, editsFor, Generator.provided_append, List.map_append, List.reverse_append,
    List.flatMap_append, List.append_assoc, List.length_append, Nat.add_assoc]

/-- The progress after some start tags that ask for ids. -/
def afterServing (o : Options) (p : Progress) (requests : List (Tag × Option Descriptor)) : Progress :=
  p.after o (Generator.serve o p.generator.used requests)

theorem afterServing_append (p : Progress) (a b : List (Tag × Option Descriptor)) :
    p.afterServing o (a ++ b) = (p.afterServing o a).afterServing o b := by
  rw [afterServing, Generator.serve_append, after_append]
  rfl

theorem counter_afterServing (p : Progress) (requests : List (Tag × Option Descriptor)) :
    (p.afterServing o requests).generator.counter =
      p.generator.counter + Generator.asked requests :=
  congrArg (p.generator.counter + ·) (Generator.length_provided_serve o _ requests)

theorem visit_eq (path : List Nat) (t : Tag) (children : List Node) (p : Progress) :
    p.visit o path t children = p.afterServing o [(t, request o path t children)] := by
  by_cases hasks : t.isAccepted o
  · simp only [visit, request, if_pos hasks]
    simp [afterServing, Generator.serve, after, editsFor, Generator.generate, Generator.ensureUnique,
      Generator.increment, Generator.provided]
  · simp only [visit, request, if_neg hasks]
    rfl

/-- The walk serves the start tags in its order. -/
theorem walk_eq (path : List Nat) (nodes : List Node) (p : Progress) :
    p.walk o path nodes = p.afterServing o (requests o path p.generator.counter nodes) := by
  induction nodes using Node.list_induction generalizing path p with
  | nil => rfl
  | element tag children rest ihchildren ihrest =>
      have henter : enter o path (.element tag children) p =
          (p.afterServing o (requestOf o (path ++ [p.generator.counter]) tag children)).walk o
            (path ++ [p.generator.counter]) children := by
        cases tag with
        | none => rfl
        | some t => exact congrArg (walk o _ children) (visit_eq _ t children p)
      rw [walk, requests, requestsIn, henter]
      simp only [ihchildren, ihrest, afterServing_append, counter_afterServing,
        Generator.asked_append, Nat.add_assoc]
  | expression literal inside rest ihinside ihrest =>
      rw [walk, enter, requests, requestsIn]
      simp only [ihinside, ihrest, afterServing_append, counter_afterServing]
  | text content rest ih => exact ih path p

end Progress

section Walking

variable (o : Options)

namespace Round

/-- A walk that comes to a tree and has passed it with all that it holds. -/
def pass (tree : Grammar.Tree Kind) (r : Round) : Round :=
  { r with progress := r.progress.walk o r.path (nodesOf [tree]) }

theorem foldl_pass (trees : List (Grammar.Tree Kind)) (r : Round) :
    trees.foldl (fun r tree => pass o tree r) r = { r with progress := r.progress.walk o r.path (nodesOf trees) } := by
  induction trees generalizing r with
  | nil => rfl
  | cons tree trees ih =>
      rw [List.foldl_cons, ih, nodesOf_cons, Progress.walk_append]
      rfl

theorem nodesOf_filter_not_isOpening (trees : List (Grammar.Tree Kind)) :
    nodesOf (trees.filter fun tree => !isOpening tree) = nodesOf trees := by
  induction trees with
  | nil => rfl
  | cons tree trees ih =>
      cases tree with
      | leaf kind start stop text => exact congrArg ((nodeOf? _).toList ++ ·) ih
      | branch kind start stop parts =>
          by_cases hopening : kind = .opening
          · subst hopening
            exact ih
          · have hstays : isOpening (.branch kind start stop parts) = false := by
              cases kind <;> first | contradiction | rfl
            rw [List.filter_cons_of_pos (by rw [hstays]; rfl), nodesOf, nodesOf, ih]

theorem total_steps (trees : List (Grammar.Tree Kind)) : Walk.total steps trees = stepsOver trees := by
  induction trees with
  | nil => rfl
  | cons tree trees ih => rw [Walk.total, ih, stepsOver]

theorem stepsOver_filter_le (p : Grammar.Tree Kind → Bool) (trees : List (Grammar.Tree Kind)) :
    stepsOver (trees.filter p) ≤ stepsOver trees := by
  induction trees with
  | nil => exact Nat.le_refl _
  | cons tree trees ih =>
      rw [List.filter_cons]
      split
      · exact Nat.add_le_add_left ih _
      · exact Nat.le_trans ih (Nat.le_add_left _ _)

/-- The walk with a stack does what the recursion over the nodes does. -/
theorem follows : (giving o).Follows (pass o) steps where
  through_eq
    | .leaf kind .., r => by cases kind <;> rfl
    | .branch kind start stop parts, r => by
        by_cases helement : kind = .element
        · subst helement
          change _ = leave ((parts.filter fun part => !isOpening part).foldl (fun r tree => pass o tree r)
            (enter o (.branch .element start stop parts) r))
          rw [foldl_pass, nodesOf_filter_not_isOpening, pass, nodesOf_element, enter]
          cases htag : tagIn parts with
          | none => simp only [leave, List.dropLast_concat, Progress.walk, Progress.enter, nodesOf]
          | some t => simp only [leave, List.dropLast_concat, Progress.walk, Progress.enter, nodesOf]
        by_cases hopening : kind = .opening
        · subst hopening
          rfl
        · have hparts : (giving o).parts (.branch kind start stop parts) = parts := by
            cases kind <;> first | contradiction | rfl
          have hends : (giving o).ends (.branch kind start stop parts) = false := by
            cases kind <;> first | contradiction | rfl
          have henter : (giving o).enter (.branch kind start stop parts) r = r := by
            cases kind <;> first | contradiction | rfl
          obtain ⟨literal, hnodes⟩ := exists_nodesOf_branch [] start stop parts helement hopening
          rw [hparts, hends, henter, foldl_pass, pass, hnodes]
          rfl
  le_steps
    | .leaf kind .. => by cases kind <;> exact Nat.le_refl 1
    | .branch kind start stop parts => by
        have hparts : Walk.total steps ((giving o).parts (.branch kind start stop parts)) ≤ stepsOver parts := by
          rw [total_steps]
          cases kind <;> first | exact stepsOver_filter_le _ parts | exact Nat.zero_le _ | exact Nat.le_refl _
        have hends : (if (giving o).ends (.branch kind start stop parts) then 1 else 0) ≤ 1 := by split <;> omega
        rw [steps]
        omega

end Round

/-- The ids for a program are those that the recursion over its nodes gives. -/
theorem Progress.ofTrees_eq (trees : List (Grammar.Tree Kind)) :
    ofTrees o trees = walk o [] (nodesOf trees) {} := by
  have hrun := (Round.follows o).run_enter trees {}
  rw [Round.total_steps, Round.foldl_pass] at hrun
  exact congrArg (fun c => c.2.progress) hrun

theorem Progress.ofTrees_afterServing (trees : List (Grammar.Tree Kind)) :
    ofTrees o trees = afterServing o {} (requests o [] 0 (nodesOf trees)) := by
  rw [ofTrees_eq, walk_eq]

/-- The edits of a walk are those for the start tags that get ids. -/
theorem reverse_edits_ofTrees (trees : List (Grammar.Tree Kind)) :
    (Progress.ofTrees o trees).edits.reverse = editsFor o (Generator.provided (served o (nodesOf trees))) := by
  rw [Progress.ofTrees_afterServing]
  simp only [Progress.afterServing, Progress.after, List.append_nil, List.reverse_reverse]
  rfl

theorem assigned_ofTrees (trees : List (Grammar.Tree Kind)) :
    (Progress.ofTrees o trees).assigned = (Generator.provided (served o (nodesOf trees))).length := by
  rw [Progress.ofTrees_afterServing]
  exact Nat.zero_add _

end Walking

section Assign

variable {o : Options} {source out : List Char} {read : Reader} {trees : List (Grammar.Tree Kind)}

/-- A program that gets its ids is the program with the edits for its start tags. -/
theorem assign_ok (h : (assign source o read).result = .ok out) :
    ∃ trees, read source = .ok trees ∧
      Edit.splice source (editsFor o (Generator.provided (served o (nodesOf trees)))) = .ok out ∧
      (assign source o read).events = [(Progress.ofTrees o trees).event] := by
  unfold assign at h ⊢
  cases hread : read source with
  | error fault =>
      simp only [hread] at h
      cases h
  | ok trees =>
      simp only [hread] at h ⊢
      rw [reverse_edits_ofTrees] at h ⊢
      cases hsplice : Edit.splice source (editsFor o (Generator.provided (served o (nodesOf trees)))) with
      | error start =>
          simp only [hsplice] at h
          cases h
      | ok text =>
          simp only [hsplice] at h ⊢
          cases h
          exact ⟨trees, rfl, hsplice, rfl⟩

/-- Where the edits of its walk can be made, a program gets its ids. -/
theorem result_assign (h : read source = .ok trees)
    (hsplice : Edit.splice source (editsFor o (Generator.provided (served o (nodesOf trees)))) = .ok out) :
    (assign source o read).result = .ok out := by
  rw [← reverse_edits_ofTrees] at hsplice
  unfold assign
  simp only [h, hsplice]

end Assign

end MarkupIds.Jsx
