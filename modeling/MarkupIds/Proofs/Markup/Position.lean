import Mathlib.Data.List.Nodup
import Mathlib.Data.List.Infix
import MarkupIds.Markup.Tree
import MarkupIds.Markup.Place
import MarkupIds.Selection
import MarkupIds.Options.Basic
import MarkupIds.Proofs.Ident.Path

/-! Positions of elements told by the shape of the tree alone. The address of a node says as which
child to go down at each level. The elements around an element are those at the beginnings of its
address, and the rank of an element is the number of addresses of elements before its own. The
numbers that elements get on a walk through the tree are these, and they tell the elements with what
surrounds them apart. -/

namespace MarkupIds.Markup

namespace Node

mutual

/-- The addresses of the elements that a node makes up, where the node has the address `here`. -/
def addressesIn (here : List Nat) : Node → List (List Nat)
  | .element _ children => here :: addressesFrom here 0 children
  | .text .. => []

/-- The addresses of the elements among some nodes and inside them. The first node is child `i` of
what has the address `above`. -/
def addressesFrom (above : List Nat) (i : Nat) : List Node → List (List Nat)
  | [] => []
  | node :: rest => node.addressesIn (above ++ [i]) ++ addressesFrom above (i + 1) rest

end

/-- The addresses of the elements of a document, in the order of their start tags. -/
def addresses (nodes : List Node) : List (List Nat) := addressesFrom [] 0 nodes

/-- The ranks of the elements at the beginnings of an address, from the outside in. -/
def positionIn (all : List (List Nat)) (address : List Nat) : List Nat :=
  address.inits.tail.map fun a => all.idxOf a

/-- The positions of the elements of a document, in the order of their start tags. -/
def positions (nodes : List Node) : List (List Nat) :=
  (addresses nodes).map (positionIn (addresses nodes))

mutual

theorem length_addressesIn (here : List Nat) : (node : Node) →
    (node.addressesIn here).length = node.elementCount
  | .element _ children => by
      rw [addressesIn, elementCount, List.length_cons, length_addressesFrom here 0 children,
        Nat.add_comm]
  | .text .. => rfl

theorem length_addressesFrom (above : List Nat) (i : Nat) : (nodes : List Node) →
    (addressesFrom above i nodes).length = countElements nodes
  | [] => rfl
  | node :: rest => by
      rw [addressesFrom, countElements, List.length_append, length_addressesIn _ node,
        length_addressesFrom above (i + 1) rest]

end

mutual

theorem below_of_mem_addressesIn {here a : List Nat} : (node : Node) → a ∈ node.addressesIn here →
    ∃ down, a = here ++ down
  | .element _ children, h => by
      rcases List.mem_cons.mp h with rfl | h
      · exact ⟨[], (List.append_nil _).symm⟩
      · obtain ⟨j, down, -, rfl⟩ := below_of_mem_addressesFrom children h
        exact ⟨j :: down, rfl⟩

theorem below_of_mem_addressesFrom {above a : List Nat} {i : Nat} : (nodes : List Node) →
    a ∈ addressesFrom above i nodes → ∃ j down, i ≤ j ∧ a = above ++ j :: down
  | node :: rest, h => by
      rcases List.mem_append.mp h with h | h
      · obtain ⟨down, rfl⟩ := below_of_mem_addressesIn node h
        exact ⟨i, down, le_rfl, by simp⟩
      · obtain ⟨j, down, hj, rfl⟩ := below_of_mem_addressesFrom rest h
        exact ⟨j, down, by omega, rfl⟩

end

mutual

theorem nodup_addressesIn (here : List Nat) : (node : Node) → (node.addressesIn here).Nodup
  | .element _ children => by
      refine List.nodup_cons.mpr ⟨?_, nodup_addressesFrom here 0 children⟩
      intro h
      obtain ⟨j, down, -, hdown⟩ := below_of_mem_addressesFrom children h
      simp at hdown
  | .text .. => .nil

theorem nodup_addressesFrom (above : List Nat) (i : Nat) : (nodes : List Node) →
    (addressesFrom above i nodes).Nodup
  | [] => .nil
  | node :: rest => by
      refine (nodup_addressesIn _ node).append (nodup_addressesFrom above (i + 1) rest) ?_
      intro a hnode hrest
      obtain ⟨down, rfl⟩ := below_of_mem_addressesIn node hnode
      obtain ⟨j, down', hj, hsame⟩ := below_of_mem_addressesFrom rest hrest
      rw [List.append_assoc, List.append_cancel_left_eq] at hsame
      have := (List.cons.inj hsame).1
      omega

end

theorem positionIn_append (all : List (List Nat)) (above : List Nat) (i : Nat) :
    positionIn all (above ++ [i]) = positionIn all above ++ [all.idxOf (above ++ [i])] := by
  have hinits : (above ++ [i]).inits = above.inits ++ [above ++ [i]] := by
    simp [List.inits_append]
  have hne : above.inits ≠ [] := by cases above <;> simp
  rw [positionIn, hinits, List.tail_append_of_ne_nil hne, List.map_append]
  rfl

end Node

namespace Numbered

open Node (addressesIn addressesFrom addresses positionIn positions)

variable {all : List (List Nat)}

mutual

theorem map_path_ofNode (hall : all.Nodup) (above : List Nat) (i : Nat) (before after : List (List Nat)) :
    (node : Node) → all = before ++ (node.addressesIn (above ++ [i]) ++ after) →
    (ofNode (positionIn all above) before.length node).map path =
      (node.addressesIn (above ++ [i])).map (positionIn all)
  | .element tag children, h => by
      have hrank : all.idxOf (above ++ [i]) = before.length := by
        rw [h] at hall ⊢
        obtain ⟨-, -, hapart⟩ := List.nodup_append.mp hall
        have hnew : above ++ [i] ∉ before := fun hmem =>
          hapart _ hmem _ (List.mem_append_left _ List.mem_cons_self) rfl
        rw [List.idxOf_append_of_notMem hnew, addressesIn, List.cons_append, List.idxOf_cons_self,
          Nat.add_zero]
      have hposition : positionIn all (above ++ [i]) = positionIn all above ++ [before.length] := by
        rw [Node.positionIn_append, hrank]
      have hchildren := map_path_listFrom hall (above ++ [i]) 0 (before ++ [above ++ [i]]) after
        children (by simpa [addressesIn] using h)
      rw [hposition, List.length_append] at hchildren
      rw [ofNode, addressesIn, List.map_cons, List.map_cons, hposition]
      exact congrArg (_ :: ·) hchildren
  | .text .., _ => rfl

theorem map_path_listFrom (hall : all.Nodup) (above : List Nat) (i : Nat)
    (before after : List (List Nat)) :
    (nodes : List Node) → all = before ++ (addressesFrom above i nodes ++ after) →
    (listFrom (positionIn all above) before.length nodes).map path =
      (addressesFrom above i nodes).map (positionIn all)
  | [], _ => rfl
  | node :: rest, h => by
      rw [addressesFrom, List.append_assoc] at h
      have hnode := map_path_ofNode hall above i before _ node h
      have hrest := map_path_listFrom hall above (i + 1) (before ++ node.addressesIn (above ++ [i])) after rest
        (by rw [h, List.append_assoc])
      rw [List.length_append, Node.length_addressesIn] at hrest
      rw [listFrom, addressesFrom, List.map_append, List.map_append, hnode, hrest]

end

/-- The numbers found on a walk through a tree are the positions that its shape tells. -/
theorem map_path_list (nodes : List Node) : (list nodes).map path = positions nodes :=
  map_path_listFrom (Node.nodup_addressesFrom [] 0 nodes) [] 0 [] [] nodes
    (by rw [List.nil_append, List.append_nil])

mutual

theorem length_ofNode (outer : List Nat) (rank : Nat) : (node : Node) →
    (ofNode outer rank node).length = node.elementCount
  | .element tag children => by
      rw [ofNode, List.length_cons, length_listFrom, Node.elementCount, Nat.add_comm]
  | .text .. => rfl

theorem length_listFrom (outer : List Nat) (rank : Nat) : (nodes : List Node) →
    (listFrom outer rank nodes).length = Node.countElements nodes
  | [] => rfl
  | node :: rest => by rw [listFrom, List.length_append, length_ofNode, length_listFrom, Node.countElements]

end

mutual

theorem rank_of_mem_ofNode {outer : List Nat} {rank : Nat} {e : Numbered} : (node : Node) →
    e ∈ ofNode outer rank node → rank ≤ e.rank ∧ e.rank < rank + node.elementCount
  | .element tag children, h => by
      rw [Node.elementCount]
      rcases List.mem_cons.mp h with rfl | h
      · exact ⟨le_rfl, Nat.lt_add_of_pos_right (by omega)⟩
      · have := rank_of_mem_listFrom children h
        omega

theorem rank_of_mem_listFrom {outer : List Nat} {rank : Nat} {e : Numbered} : (nodes : List Node) →
    e ∈ listFrom outer rank nodes → rank ≤ e.rank ∧ e.rank < rank + Node.countElements nodes
  | node :: rest, h => by
      rw [Node.countElements]
      rcases List.mem_append.mp h with h | h
      · have := rank_of_mem_ofNode node h
        omega
      · have := rank_of_mem_listFrom rest h
        omega

end

mutual

theorem pairwise_rank_ofNode (outer : List Nat) (rank : Nat) : (node : Node) →
    (ofNode outer rank node).Pairwise fun a b => a.rank < b.rank
  | .element tag children => by
      refine List.pairwise_cons.mpr ⟨?_, pairwise_rank_listFrom _ _ children⟩
      intro e he
      exact (rank_of_mem_listFrom children he).1
  | .text .. => .nil

/-- The elements of a document stand in the order of their ranks. -/
theorem pairwise_rank_listFrom (outer : List Nat) (rank : Nat) : (nodes : List Node) →
    (listFrom outer rank nodes).Pairwise fun a b => a.rank < b.rank
  | [] => .nil
  | node :: rest => by
      refine List.pairwise_append.mpr
        ⟨pairwise_rank_ofNode outer rank node, pairwise_rank_listFrom outer _ rest, ?_⟩
      intro a ha b hb
      exact (rank_of_mem_ofNode node ha).2.trans_le (rank_of_mem_listFrom rest hb).1

end

/-- Elements of a document that ask with their positions ask with paths that end in different numbers. -/
theorem pairwise_endApart {ask : Numbered → Option Descriptor}
    (hask : ∀ e element, ask e = some element → element.path = e.path.map Int.ofNat) (nodes : List Node) :
    ((list nodes).filterMap ask).Pairwise Generator.EndApart := by
  refine (pairwise_rank_listFrom [] 0 nodes).filterMap _ ?_
  intro a b hrank element ha element' hb
  exact ⟨a.outer, b.outer, a.rank, b.rank, hask a element ha, hask b element' hb, hrank.ne⟩

/-- An element is picked, and admitted with the value that it has under the name `attr`. -/
def admitted (o : Options) (attr : List Char) (picked : Picked) (e : Numbered) : Bool :=
  picked.has e.rank && o.admits e.tag.name ((e.tag.attribute? (String.ofList attr)).map String.toList)

/-- The id that an element gets where ids are made of paths: it tells its name and its position. -/
def pathId? (o : Options) (attr : List Char) (picked : Picked) (e : Numbered) : Option String :=
  if e.admitted o attr picked then some (Generator.pathId o.idPrefix e.tag.name e.path) else none

theorem candidate_eq_pathId {o : Options} (hstrategy : o.strategy = .path) (e : Numbered)
    {element : Descriptor} (hname : element.name = e.tag.name)
    (hpath : element.path = e.path.map Int.ofNat) :
    Generator.candidate element o = Generator.pathId o.idPrefix e.tag.name e.path := by
  rw [Generator.candidate_eq_pathId hstrategy (by simp [path]) hpath, hname]

end Numbered

namespace Place

theorem map_allFrom (parent : Option Place) (before : List Node) (outer : List Nat) (rank : Nat) :
    (nodes : List Node) → (allFrom (fun _ => false) parent rank before nodes).map (fun p => (p.rank, p.tag)) =
      (Numbered.listFrom outer rank nodes).map fun e => (some e.rank, e.tag)
  | [] => by simp [allFrom, Numbered.listFrom]
  | .element tag children :: rest => by
      rw [allFrom, Numbered.listFrom, Numbered.ofNode, if_neg Bool.false_ne_true, List.map_append, List.map_append,
        List.map_cons, List.map_cons, map_allFrom _ _ (outer ++ [rank]) (rank + 1) children,
        map_allFrom parent _ outer (rank + 1 + Node.countElements children) rest, Node.elementCount, Nat.add_assoc]
      rfl
  | .text kind content :: rest => by
      rw [allFrom, Numbered.listFrom, Numbered.ofNode, Node.elementCount, List.nil_append]
      exact map_allFrom parent _ outer rank rest

theorem map_allOf (nodes : List Node) :
    (allOf nodes).map (fun p => (p.rank, p.tag)) = (Numbered.list nodes).map fun e => (some e.rank, e.tag) :=
  map_allFrom (some (document nodes)) [] [] 0 nodes

theorem eq_of_rank_eq {nodes : List Node} {a b : Numbered} (ha : a ∈ Numbered.list nodes) (hb : b ∈ Numbered.list nodes)
    (hrank : a.rank = b.rank) : a = b := by
  have hnodup : ((Numbered.list nodes).map Numbered.rank).Nodup :=
    List.pairwise_map.mpr ((Numbered.pairwise_rank_listFrom [] 0 nodes).imp Nat.ne_of_lt)
  exact List.inj_on_of_nodup_map hnodup ha hb hrank

/-- The place of a rank is that of the element with the rank. -/
theorem tag_of_mem_allOf {nodes : List Node} {p : Place} {e : Numbered} (hp : p ∈ allOf nodes)
    (he : e ∈ Numbered.list nodes) (hrank : p.rank = some e.rank) : p.tag = e.tag := by
  have hmem : (p.rank, p.tag) ∈ (Numbered.list nodes).map fun e => (some e.rank, e.tag) := by
    rw [← map_allOf]
    exact List.mem_map_of_mem hp
  obtain ⟨e', he', hsame⟩ := List.mem_map.mp hmem
  obtain ⟨hrank', htag⟩ := Prod.mk.inj hsame
  rw [← htag, eq_of_rank_eq he' he (Option.some.inj (hrank'.trans hrank))]

end Place

end MarkupIds.Markup
