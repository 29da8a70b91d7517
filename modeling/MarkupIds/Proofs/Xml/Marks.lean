import MarkupIds.Markup.Tree
import MarkupIds.Proofs.Xml.Tree

/-! Elements told by the marks that open and close them, in the order of the text. What a pass over the marks of a tree
has open is what the elements of the tree are in, and the trees of a document have all the marks of its pieces and no
others. -/

namespace MarkupIds.Markup

/-- An element is opened, or the innermost one is closed. -/
inductive Mark (α : Type) where
  | opening (a : α)
  | closing

namespace Mark

variable {α β : Type}

def map (f : α → β) : Mark α → Mark β
  | opening a => opening (f a)
  | closing => closing

/-- The marks close what is open at a depth and what they open themselves, and nothing else. -/
def Nested : Nat → List (Mark α) → Prop
  | depth, [] => depth = 0
  | depth, opening _ :: marks => Nested (depth + 1) marks
  | 0, closing :: _ => False
  | depth + 1, closing :: marks => Nested depth marks

/-- What is opened, with its rank and the ranks of what is open there, the innermost first. -/
def places (rank : Nat) (openRanks : List Nat) : List (Mark α) → List (α × Nat × List Nat)
  | [] => []
  | opening a :: marks => (a, rank, openRanks) :: places (rank + 1) (rank :: openRanks) marks
  | closing :: marks => places rank (openRanks.drop 1) marks

theorem places_map (f : α → β) (marks : List (Mark α)) (rank : Nat) (openRanks : List Nat) :
    places rank openRanks (marks.map (map f)) =
      (places rank openRanks marks).map fun place => (f place.1, place.2) := by
  induction marks generalizing rank openRanks with
  | nil => rfl
  | cons mark marks ih =>
      cases mark with
      | opening a => exact congrArg ((f a, rank, openRanks) :: ·) (ih _ _)
      | closing => exact ih _ _

theorem opening_mem_of_places {marks : List (Mark α)} {rank : Nat} {openRanks : List Nat} {place : α × Nat × List Nat}
    (h : place ∈ places rank openRanks marks) : opening place.1 ∈ marks := by
  induction marks generalizing rank openRanks with
  | nil => cases h
  | cons mark marks ih =>
      cases mark with
      | opening a =>
          obtain rfl | h := List.mem_cons.mp h
          · exact List.mem_cons_self
          · exact List.mem_cons_of_mem _ (ih h)
      | closing => exact List.mem_cons_of_mem _ (ih h)

end Mark

namespace Node

mutual

/-- The marks of the elements that a node makes up. -/
def marksIn : Node → List (Mark Tag)
  | .element tag children => .opening tag :: (marks children ++ [.closing])
  | .text .. => []

/-- The marks of the elements among some nodes and inside them. -/
def marks : List Node → List (Mark Tag)
  | [] => []
  | node :: rest => node.marksIn ++ marks rest

end

@[simp] theorem marks_nil : marks [] = [] := rfl

theorem marks_append (a b : List Node) : marks (a ++ b) = marks a ++ marks b := by
  induction a with
  | nil => rfl
  | cons node a ih => simp only [List.cons_append, marks, ih, List.append_assoc]

end Node

namespace Numbered

/-- An element with its rank and the ranks of the elements around it, the innermost first. -/
def place (e : Numbered) : Tag × Nat × List Nat := (e.tag, e.rank, e.outer.reverse)

mutual

theorem places_marksIn (rank : Nat) (openRanks : List Nat) (behind : List (Mark Tag)) : (node : Node) →
    Mark.places rank openRanks (node.marksIn ++ behind) =
      (ofNode openRanks.reverse rank node).map place ++
        Mark.places (rank + node.elementCount) openRanks behind
  | .element tag children => by
      have hinside := places_marks (rank + 1) (rank :: openRanks) (.closing :: behind) children
      rw [List.reverse_cons] at hinside
      simp only [Node.marksIn, List.cons_append, List.append_assoc, List.nil_append, Mark.places, hinside,
        ofNode, List.map_cons, place, List.reverse_reverse, List.drop_one, List.tail_cons, Node.elementCount,
        Nat.add_assoc]
  | .text .. => rfl

theorem places_marks (rank : Nat) (openRanks : List Nat) (behind : List (Mark Tag)) : (nodes : List Node) →
    Mark.places rank openRanks (Node.marks nodes ++ behind) =
      (listFrom openRanks.reverse rank nodes).map place ++
        Mark.places (rank + Node.countElements nodes) openRanks behind
  | [] => rfl
  | node :: rest => by
      rw [Node.marks, List.append_assoc, places_marksIn rank openRanks _ node,
        places_marks (rank + node.elementCount) openRanks behind rest, listFrom, List.map_append,
        List.append_assoc, Node.countElements, Nat.add_assoc]

end

/-- On a pass over the marks of a document, every element has the place that it has in the tree. -/
theorem places_list (nodes : List Node) : Mark.places 0 [] (Node.marks nodes) = (list nodes).map place := by
  have hall := places_marks 0 [] [] nodes
  rw [List.append_nil] at hall
  simpa [Mark.places, list] using hall

theorem opening_mem_marks {nodes : List Node} {e : Numbered} (h : e ∈ list nodes) :
    Mark.opening e.tag ∈ Node.marks nodes := by
  have hplace : e.place ∈ Mark.places 0 [] (Node.marks nodes) := by
    rw [places_list]
    exact List.mem_map_of_mem h
  exact Mark.opening_mem_of_places hplace

end Numbered

end MarkupIds.Markup

namespace MarkupIds.Xml

open MarkupIds.Markup (Mark Node Numbered Tag)

namespace Piece

/-- The marks among some pieces. -/
def marks : List Piece → List (Mark Tag)
  | [] => []
  | opening tag :: pieces => .opening tag :: marks pieces
  | closing :: pieces => .closing :: marks pieces
  | text .. :: pieces => marks pieces
  | reference :: pieces => marks pieces

theorem opening_mem_marks {pieces : List Piece} {tag : Tag} (h : Mark.opening tag ∈ marks pieces) :
    .opening tag ∈ pieces := by
  induction pieces with
  | nil => cases h
  | cons piece pieces ih =>
      cases piece with
      | opening tag' =>
          obtain heq | h := List.mem_cons.mp h
          · cases heq
            exact List.mem_cons_self
          · exact List.mem_cons_of_mem _ (ih h)
      | closing =>
          obtain heq | h := List.mem_cons.mp h
          · cases heq
          · exact List.mem_cons_of_mem _ (ih h)
      | text kind content => exact List.mem_cons_of_mem _ (ih h)
      | reference => exact List.mem_cons_of_mem _ (ih h)

theorem marks_append (a b : List Piece) : marks (a ++ b) = marks a ++ marks b := by
  induction a with
  | nil => rfl
  | cons piece a ih => cases piece <;> simp only [List.cons_append, marks, ih]

theorem marks_cons (piece : Piece) (pieces : List Piece) : marks (piece :: pieces) = marks [piece] ++ marks pieces :=
  marks_append [piece] pieces

theorem marks_joined (pieces : List Piece) : marks (joined pieces) = marks pieces := by
  fun_induction joined pieces with
  | case1 => rfl
  | case2 a rest b others hrest ih =>
      rw [hrest] at ih
      exact ih
  | case3 a rest hrest ih => exact ih
  | case4 piece rest hpiece ih => rw [marks_cons, ih, ← marks_cons]

theorem marks_withoutReferences (pieces : List Piece) :
    marks (pieces.filter fun piece => !piece.isReference) = marks pieces := by
  induction pieces with
  | nil => rfl
  | cons piece pieces ih =>
      cases piece with
      | reference => exact ih
      | opening tag => exact congrArg (Mark.opening tag :: ·) ih
      | closing => exact congrArg (Mark.closing :: ·) ih
      | text kind content => exact ih

theorem marks_collapsed (pieces : List Piece) : marks (pieces.map Contents.collapsedPiece) = marks pieces := by
  induction pieces with
  | nil => rfl
  | cons piece pieces ih =>
      have hpiece : marks [Contents.collapsedPiece piece] = marks [piece] := by
        cases piece with
        | text kind content => cases kind <;> rfl
        | _ => rfl
      rw [List.map_cons, marks_cons, hpiece, ih, ← marks_cons]

end Piece

namespace Token

/-- The marks among some tokens. A tag that closes its element at once makes two. -/
def marks : List Token → List (Mark StartTag)
  | [] => []
  | opening t :: tokens =>
    if t.isEmptyElement then .opening t :: .closing :: marks tokens else .opening t :: marks tokens
  | closing _ :: tokens => .closing :: marks tokens
  | other _ :: tokens => marks tokens

end Token

namespace Builder

/-- The marks of what has been built, up to the place reached. -/
def marks (b : Builder) : List (Mark Tag) :=
  Node.marks b.top.reverse ++
    b.stack.reverse.flatMap fun element => .opening element.1 :: Node.marks element.2.reverse

theorem marks_add (b : Builder) (node : Node) : (b.add node).marks = b.marks ++ node.marksIn := by
  unfold add
  split
  next hstack => simp [marks, hstack, Node.marks_append, Node.marks]
  next tag content rest hstack => simp [marks, hstack, Node.marks_append, Node.marks]

/-- Pieces that close what is open and what they open themselves leave their marks. -/
theorem marks_foldl_step {pieces : List Piece} {b : Builder}
    (h : Mark.Nested b.stack.length (Piece.marks pieces)) :
    (pieces.foldl step b).marks = b.marks ++ Piece.marks pieces ∧ (pieces.foldl step b).stack = [] := by
  induction pieces generalizing b with
  | nil => exact ⟨(List.append_nil _).symm, List.eq_nil_of_length_eq_zero h⟩
  | cons piece pieces ih =>
      have hgo (hmarks : (b.step piece).marks = b.marks ++ Piece.marks [piece])
          (hnested : Mark.Nested (b.step piece).stack.length (Piece.marks pieces)) :
          ((piece :: pieces).foldl step b).marks = b.marks ++ Piece.marks (piece :: pieces) ∧
            ((piece :: pieces).foldl step b).stack = [] := by
        obtain ⟨hmore, hstack⟩ := ih hnested
        refine ⟨?_, hstack⟩
        rw [List.foldl_cons, hmore, hmarks, List.append_assoc, ← Piece.marks_cons]
      cases piece with
      | opening tag => exact hgo (by simp [marks, step, Piece.marks]) h
      | closing =>
          cases hstack : b.stack with
          | nil =>
              rw [hstack] at h
              exact h.elim
          | cons element rest =>
              obtain ⟨tag, content⟩ := element
              rw [hstack] at h
              refine hgo ?_ ?_
              · simp only [step, hstack, marks_add]
                simp [marks, hstack, Node.marksIn, Piece.marks]
              · simp only [step, hstack, length_stack_add]
                exact h
      | text kind content =>
          by_cases hempty : kind == .plain && content.isEmpty
          · exact hgo (by simp [step, hempty, Piece.marks]) (by simp only [step, hempty, if_true]; exact h)
          · refine hgo ?_ ?_
            · simp [step, hempty, marks_add, Node.marksIn, Piece.marks]
            · simp only [step, hempty, Bool.false_eq_true, if_false, length_stack_add]
              exact h
      | reference => exact hgo (List.append_nil _).symm h

theorem marks_treeOf {pieces : List Piece} (h : Mark.Nested 0 (Piece.marks pieces)) :
    Node.marks (treeOf pieces) = Piece.marks pieces := by
  obtain ⟨hmarks, hstack⟩ := marks_foldl_step (b := {}) h
  rw [marks, hstack] at hmarks
  simpa [treeOf, marks] using hmarks

end Builder

namespace Contents

variable {c : Contents}

theorem marks_tree (h : Mark.Nested 0 (Piece.marks c.pieces)) : Node.marks c.tree = Piece.marks c.pieces := by
  rw [tree, Builder.marks_treeOf, Piece.marks_joined]
  rw [Piece.marks_joined]
  exact h

/-- The tree that selectors see has the elements of the other one, unless entities are declared. -/
theorem marks_selectorTree (h : Mark.Nested 0 (Piece.marks c.pieces)) (hdeclares : c.declaresEntities = false) :
    Node.marks c.selectorTree = Piece.marks c.pieces := by
  have hsame : Piece.marks ((Piece.joined (c.pieces.filter fun p => !p.isReference)).map collapsedPiece) =
      Piece.marks c.pieces := by
    rw [Piece.marks_collapsed, Piece.marks_joined, Piece.marks_withoutReferences]
  rw [selectorTree, hdeclares, if_neg Bool.false_ne_true, Builder.marks_treeOf, hsame]
  rw [hsame]
  exact h

end Contents

end MarkupIds.Xml
