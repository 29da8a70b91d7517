import MarkupIds.Proofs.Ident.Path
import MarkupIds.Proofs.Jsx.Disjoint

/-! The elements of a program that a run comes to, told by its trees alone: all that do not stand inside
a start tag. The path of an element counts, for every one around it and for itself, the ids that had
been assigned before. -/

namespace MarkupIds.Jsx

/-- An element or fragment that a run comes to, with its rank among these. -/
structure Visited where
  tag : Option Tag
  rank : Nat
  /-- The ranks of those around it, from the outside in. -/
  outer : List Nat

mutual

/-- The elements and fragments in a tree outside of start tags, where the first has the rank `rank`. -/
def visitedIn (outer : List Nat) (rank : Nat) : Grammar.Tree Kind → List Visited
  | .leaf .. => []
  | .branch .element _ _ parts =>
    ⟨tagIn parts, rank, outer⟩ :: visitedFrom (outer ++ [rank]) (rank + 1) parts
  | .branch .opening _ _ _ => []
  | .branch _ _ _ parts => visitedFrom outer rank parts

/-- The elements and fragments in some trees outside of start tags. -/
def visitedFrom (outer : List Nat) (rank : Nat) : List (Grammar.Tree Kind) → List Visited
  | [] => []
  | tree :: rest =>
    let here := visitedIn outer rank tree
    here ++ visitedFrom outer (rank + here.length) rest

end

/-- The elements and fragments of a program outside of start tags, in the order of their start tags. -/
def visited (trees : List (Grammar.Tree Kind)) : List Visited := visitedFrom [] 0 trees

namespace Visited

/-- The element gets an id: the last part of its name starts in lower case, and it is admitted with the
first value that the attribute has as a string. -/
def admitted (o : Options) (v : Visited) : Bool :=
  match v.tag with
  | none => false
  | some t => t.isAccepted o

/-- The number of ids assigned before the element of a rank is entered. -/
def assignedBefore (o : Options) (all : List Visited) (rank : Nat) : Nat :=
  (all.take rank).countP (admitted o)

/-- What each element around an element, and itself, found assigned. -/
def path (o : Options) (all : List Visited) (v : Visited) : List Nat :=
  (v.outer ++ [v.rank]).map (assignedBefore o all)

/-- The start tags that get an id, in their order, each with its id: it tells the last part of the name
and the path. -/
def assigned (o : Options) (all : List Visited) : List (Tag × String) :=
  all.filterMap fun v => v.tag.bind fun t =>
    if v.admitted o then
      some (t, Generator.pathId o.idPrefix (String.ofList (lastPart t.name)) (v.path o all))
    else none

/-- The start tag of an element with what it asks of the generator. -/
def asking (o : Options) (all : List Visited) (v : Visited) : Option (Tag × Option Descriptor) :=
  v.tag.map fun t => (t, request o (v.path o all) t [])

theorem assignedBefore_append (o : Options) (before after : List Visited) :
    assignedBefore o (before ++ after) before.length = before.countP (admitted o) := by
  rw [assignedBefore, List.take_left]

theorem request_eq {o : Options} (hslug : o.strategy ≠ .slug) (path : List Nat) (t : Tag)
    (children : List Node) : request o path t children = request o path t [] := by
  simp [request, hslug]

theorem asked_asking (o : Options) (all here : List Visited) :
    Generator.asked (here.filterMap (asking o all)) = here.countP (admitted o) := by
  induction here with
  | nil => rfl
  | cons v here ih =>
      obtain ⟨_ | t, rank, outer⟩ := v
      · exact ih
      · change Generator.asked ([(t, request o _ t [])] ++ here.filterMap (asking o all)) = _
        have hown : Generator.asked [(t, request o (path o all ⟨some t, rank, outer⟩) t [])] =
            if admitted o ⟨some t, rank, outer⟩ then 1 else 0 := by
          rw [Generator.asked, request, admitted]
          split <;> rfl
        rw [Generator.asked_append, ih, List.countP_cons, hown, Nat.add_comm]

end Visited

open Visited

variable {o : Options} {trees : List (Grammar.Tree Kind)}

theorem requests_leaf (path : List Nat) (counter : Nat) (kind : Kind) (start stop : Nat) (text : List Char) :
    requests o path counter (nodesOf (.leaf kind start stop text :: trees)) =
      requests o path counter (nodesOf trees) := by
  cases kind <;> rfl

theorem requests_append (path : List Nat) (counter : Nat) (a b : List Node) :
    requests o path counter (a ++ b) = requests o path counter a ++
      requests o path (counter + Generator.asked (requests o path counter a)) b := by
  induction a generalizing counter with
  | nil => rfl
  | cons node a ih =>
      simp only [List.cons_append, requests, ih, Generator.asked_append, List.append_assoc,
        Nat.add_assoc]

theorem requests_singleton (path : List Nat) (counter : Nat) (node : Node) :
    requests o path counter [node] = requestsIn o path counter node := List.append_nil _

theorem visitedIn_branch {kind : Kind} (helement : kind ≠ .element) (hopening : kind ≠ .opening) (outer : List Nat)
    (rank start stop : Nat) (parts : List (Grammar.Tree Kind)) :
    visitedIn outer rank (.branch kind start stop parts) = visitedFrom outer rank parts := by
  cases kind <;> first | contradiction | rfl

/-- The walk over the nodes asks for what the trees tell. -/
theorem requests_nodesOf (hslug : o.strategy ≠ .slug) {all : List Visited}
    (outer : List Nat) (before after : List Visited)
    (hall : all = before ++ (visitedFrom outer before.length trees ++ after)) :
    requests o (outer.map (assignedBefore o all)) (before.countP (admitted o)) (nodesOf trees) =
      (visitedFrom outer before.length trees).filterMap (asking o all) := by
  induction trees using Grammar.Tree.list_induction generalizing outer before after with
  | nil => rfl
  | leaf kind start stop text rest ih =>
      rw [requests_leaf]
      exact ih outer before after hall
  | branch kind start stop parts rest ihparts ihrest =>
      let tree : Grammar.Tree Kind := .branch kind start stop parts
      let here := visitedIn outer before.length tree
      let there := visitedFrom outer (before.length + here.length) rest
      have hall' : all = before ++ (here ++ (there ++ after)) := by
        rw [hall, visitedFrom, List.append_assoc]
      -- What the first tree brings: an element its own request and those inside, a start tag none.
      have hhere : requests o (outer.map (assignedBefore o all)) (before.countP (admitted o)) (nodesOf [tree]) =
          here.filterMap (asking o all) := by
        by_cases helement : kind = .element
        · subst helement
          let v : Visited := ⟨tagIn parts, before.length, outer⟩
          have hpath : outer.map (assignedBefore o all) ++ [before.countP (admitted o)] =
              (outer ++ [before.length]).map (assignedBefore o all) := by
            rw [List.map_append, List.map_singleton, hall', assignedBefore_append]
          have hown : requestOf o ((outer ++ [before.length]).map (assignedBefore o all)) (tagIn parts)
              (nodesOf parts) = [v].filterMap (asking o all) := by
            cases htag : tagIn parts with
            | none => simp [v, requestOf, asking, htag]
            | some t => simp [v, requestOf, asking, htag, path, request_eq hslug _ t (nodesOf parts)]
          have hinside := ihparts (outer ++ [before.length]) (before ++ [v]) (there ++ after) (by
            rw [hall', List.length_append, List.append_assoc]
            rfl)
          rw [List.countP_append, List.length_append] at hinside
          rw [nodesOf_element, nodesOf, requests_singleton, requestsIn]
          simp only [hpath, hown, asked_asking, hinside]
          exact (List.filterMap_append (l := [v])).symm
        by_cases hopening : kind = .opening
        · subst hopening
          rfl
        · obtain ⟨literal, hnodes⟩ := exists_nodesOf_branch [] start stop parts helement hopening
          have hinner : here = visitedFrom outer before.length parts :=
            visitedIn_branch helement hopening outer before.length start stop parts
          have hinside := ihparts outer before (there ++ after) (by rw [hall', hinner])
          rw [hnodes, nodesOf, requests_singleton, requestsIn, hinside, hinner]
      have hthere := ihrest outer (before ++ here) after (by
        rw [hall', List.length_append, List.append_assoc])
      rw [List.countP_append, List.length_append] at hthere
      rw [nodesOf_cons, requests_append, hhere, asked_asking, hthere, visitedFrom, List.filterMap_append]

theorem map_rank_visitedFrom (outer : List Nat) (rank : Nat) :
    (visitedFrom outer rank trees).map (·.rank) =
      List.range' rank (visitedFrom outer rank trees).length := by
  induction trees using Grammar.Tree.list_induction generalizing outer rank with
  | nil => rfl
  | leaf kind start stop text rest ih => exact ih outer rank
  | branch kind start stop parts rest ihparts ihrest =>
      have hhere : (visitedIn outer rank (.branch kind start stop parts)).map (·.rank) =
          List.range' rank (visitedIn outer rank (.branch kind start stop parts)).length := by
        cases kind with
        | element => exact congrArg (rank :: ·) (ihparts _ _)
        | opening => rfl
        | _ => exact ihparts outer rank
      rw [visitedFrom, List.map_append, hhere, ihrest, List.length_append, List.range'_append_1]

/-- Of two elements that get ids, the later one finds more of them assigned. -/
theorem pairwise_assignedBefore {all : List Visited} (hall : all.map (·.rank) = List.range' 0 all.length) :
    all.Pairwise fun v w => v.admitted o →
      assignedBefore o all v.rank < assignedBefore o all w.rank := by
  have hrank (i : Nat) (hi : i < all.length) : all[i].rank = i := by
    have hget := congrArg (·[i]?) hall
    simpa [hi] using hget
  refine List.pairwise_iff_getElem.mpr fun i j hi hj hij hadmitted => ?_
  rw [hrank i hi, hrank j hj, assignedBefore, assignedBefore]
  have hsplit : all.take j = all.take i ++ all[i] :: (all.take j).drop (i + 1) := by
    have hlength : i < (all.take j).length := by
      rw [List.length_take]
      omega
    have htake := List.take_append_drop i (all.take j)
    rw [List.drop_eq_getElem_cons hlength, List.take_take, Nat.min_eq_left hij.le, List.getElem_take]
      at htake
    exact htake.symm
  rw [hsplit, List.countP_append, List.countP_cons, if_pos hadmitted]
  omega

theorem asking_eq_some {all : List Visited} {v : Visited} {element : Descriptor}
    (h : (v.asking o all).bind Prod.snd = some element) :
    v.admitted o ∧ element.path = (v.path o all).map Int.ofNat := by
  obtain ⟨⟨t, asked⟩, hasking, hsome⟩ := Option.bind_eq_some_iff.mp h
  obtain ⟨t', htag, hpair⟩ := Option.map_eq_some_iff.mp hasking
  obtain ⟨rfl, rfl⟩ := Prod.mk.inj hpair
  obtain ⟨hadmitted, helement⟩ := Option.ite_none_right_eq_some.mp hsome
  refine ⟨?_, Option.some.inj helement ▸ rfl⟩
  rw [admitted, htag]
  exact hadmitted

theorem pairwise_endApart_asking {all : List Visited} (hall : all.map (·.rank) = List.range' 0 all.length) :
    ((all.filterMap (asking o all)).filterMap Prod.snd).Pairwise Generator.EndApart := by
  rw [List.filterMap_filterMap]
  refine (pairwise_assignedBefore (o := o) hall).filterMap _ ?_
  intro v w hless element hv element' hw
  obtain ⟨hadmitted, hpath⟩ := asking_eq_some hv
  obtain ⟨-, hpath'⟩ := asking_eq_some hw
  rw [path, List.map_append] at hpath hpath'
  exact ⟨_, _, _, _, hpath, hpath', (hless hadmitted).ne⟩

/-- Where ids are made of paths, exactly the admitted elements outside of start tags get ids, in their order, and each
id tells the last part of the name and, for every element around it and itself, how many ids had been assigned
before. So it is in a program, however it is read, whose trees stand in its text. -/
theorem assign_visited (hstrategy : o.strategy = .path) (trees : List (Grammar.Tree Kind)) :
    let given := assigned o (visited trees)
    (Progress.ofTrees o trees).edits.reverse = given.flatMap (fun e => e.1.edits o e.2.toList) ∧
      (Progress.ofTrees o trees).assigned = given.length ∧
      ∀ (read : Reader) (source : List Char), read source = .ok trees → Grammar.Spans 0 source.length trees →
        ∃ out, (assign source o read).result = .ok out ∧
          Edit.splice source (given.flatMap fun e => e.1.edits o e.2.toList) = .ok out := by
  have hrequests : requests o [] 0 (nodesOf trees) = (visited trees).filterMap (asking o (visited trees)) :=
    requests_nodesOf (by rw [hstrategy]; decide) [] [] [] (List.append_nil _).symm
  have hserved : Generator.provided (served o (nodesOf trees)) = assigned o (visited trees) := by
    have hranks : (visited trees).map (·.rank) = List.range' 0 (visited trees).length :=
      map_rank_visitedFrom [] 0
    rw [served, hrequests, Generator.serve_of_endApart hstrategy (pairwise_endApart_asking hranks), Generator.provided,
      List.filterMap_map, List.filterMap_filterMap, assigned]
    refine List.filterMap_congr fun v _ => ?_
    cases htag : v.tag with
    | none => simp [asking, htag]
    | some t =>
        have hid {element : Descriptor} (hpath : element.path = (v.path o (visited trees)).map Int.ofNat) :=
          Generator.candidate_eq_pathId hstrategy (by simp [path]) hpath
        simp only [asking, htag, request, admitted, Option.map_some, Option.bind_some]
        split
        · exact congrArg (fun id => some (t, id)) (hid rfl)
        · rfl
  intro given
  refine ⟨?_, ?_, ?_⟩
  · rw [reverse_edits_ofTrees, hserved]
    rfl
  · rw [assigned_ofTrees, hserved]
  · intro read source hread hspans
    obtain ⟨out, hout, hsplice⟩ := exists_assign o hread hspans
    rw [hserved] at hsplice
    exact ⟨out, hout, hsplice⟩

theorem assign_visited_component :
    let o : Options := { strategy := .path }
    let source := "x = <><ul.li/><A b=\x7b<i/>\x7d>\x7bok ? (<b/>) : c => d\x7d</A></>;".toList
    let out := ("x = <><ul.li data-ast-id=\"el-li-0-0\"/>" ++
      "<A b=\x7b<i/>\x7d>\x7bok ? (<b data-ast-id=\"el-b-0-1-1\"/>) : c => d\x7d</A></>;").toList
    o.strategy = .path ∧ (assign source o).result = .ok out ∧
      ∃ trees, reader source = .ok trees ∧ Grammar.Spans 0 source.length trees ∧
        Edit.splice source ((assigned o (visited trees)).flatMap fun e => e.1.edits o e.2.toList) = .ok out := by
  intro o source out
  have hresult : (assign source o).result = .ok out := Outcome.result_eq_ok_iff.mpr (by decide +kernel)
  obtain ⟨trees, htrees, -, -⟩ := assign_ok hresult
  have hspans : Grammar.Spans 0 source.length trees := Grammar.spans_of_parse? (reader_eq_ok_iff.mp htrees)
  obtain ⟨-, -, hvisited⟩ := assign_visited (o := o) rfl trees
  obtain ⟨out', hresult', hsplice'⟩ := hvisited reader source htrees hspans
  obtain rfl : out = out' := Except.ok.inj (hresult.symm.trans hresult')
  exact ⟨rfl, hresult, trees, htrees, hspans, hsplice'⟩

end MarkupIds.Jsx
