import MarkupIds.Proofs.Xml.Elements
import MarkupIds.Proofs.Xml.LineEnds
import MarkupIds.Proofs.Markup.Position

/-! The tree of a document that is read has an element for every start tag among the tokens of the text. -/

namespace MarkupIds

namespace Markup

namespace Node

theorem countElements_append (a b : List Node) : countElements (a ++ b) = countElements a + countElements b := by
  induction a with
  | nil => simp [countElements]
  | cons node a ih => simp only [List.cons_append, countElements, ih, Nat.add_assoc]

theorem countElements_reverse (nodes : List Node) : countElements nodes.reverse = countElements nodes := by
  induction nodes with
  | nil => rfl
  | cons node nodes ih =>
      simp only [List.reverse_cons, countElements_append, countElements, ih]
      omega

end Node

end Markup

namespace Xml

open Markup (Node Numbered Tag)

/-- Where texts are joined no tag comes or goes. -/
theorem joined_eq (pieces : List Piece) :
    (Piece.joined pieces).countP Piece.isOpening = pieces.countP Piece.isOpening ∧
      ∀ depth, (Piece.joined pieces).foldl Piece.depthAfter depth = pieces.foldl Piece.depthAfter depth := by
  fun_induction Piece.joined pieces with
  | case1 => exact ⟨rfl, fun _ => rfl⟩
  | case2 a rest b others hrest ih =>
      rw [hrest] at ih
      obtain ⟨hcount, hdepth⟩ := ih
      exact ⟨hcount, hdepth⟩
  | case3 a rest hrest ih => exact ih
  | case4 piece rest hpiece ih =>
      obtain ⟨hcount, hdepth⟩ := ih
      exact ⟨by rw [List.countP_cons, List.countP_cons, hcount], fun depth => hdepth _⟩

namespace Builder

/-- The elements in a stack, the open ones counted in. -/
def countStack : List (Tag × List Node) → Nat
  | [] => 0
  | (_, content) :: rest => 1 + Node.countElements content + countStack rest

/-- The elements that have been opened. -/
def opened (b : Builder) : Nat := Node.countElements b.top + countStack b.stack

theorem opened_add (b : Builder) (node : Node) : (b.add node).opened = b.opened + node.elementCount := by
  unfold add
  split
  next h => simp only [opened, h, countStack, Node.countElements]; omega
  next tag content rest h =>
    simp only [opened, h, countStack, Node.countElements]
    omega

theorem length_stack_add (b : Builder) (node : Node) : (b.add node).stack.length = b.stack.length := by
  unfold add
  split
  next h => rfl
  next tag content rest h => rw [h]; rfl

theorem step_eq (b : Builder) (piece : Piece) :
    (b.step piece).opened = b.opened + (if piece.isOpening then 1 else 0) ∧
      (b.step piece).stack.length = piece.depthAfter b.stack.length := by
  cases piece with
  | opening tag =>
      refine ⟨?_, rfl⟩
      simp only [step, opened, countStack, Node.countElements, Piece.isOpening, if_true]
      omega
  | closing =>
      unfold step
      dsimp only
      split
      next h => exact ⟨rfl, by rw [h]; rfl⟩
      next tag content rest h =>
        rw [opened_add, length_stack_add, h]
        refine ⟨?_, rfl⟩
        simp only [opened, h, countStack, Node.elementCount, Node.countElements_reverse,
          Piece.isOpening, Bool.false_eq_true, if_false]
        omega
  | text kind content =>
      unfold step
      dsimp only
      split
      · exact ⟨rfl, rfl⟩
      · exact ⟨opened_add b _, length_stack_add b _⟩
  | reference => exact ⟨rfl, rfl⟩

theorem foldl_step_eq (pieces : List Piece) (b : Builder) :
    (pieces.foldl step b).opened = b.opened + pieces.countP Piece.isOpening ∧
      (pieces.foldl step b).stack.length = pieces.foldl Piece.depthAfter b.stack.length := by
  induction pieces generalizing b with
  | nil => exact ⟨rfl, rfl⟩
  | cons piece pieces ih =>
      obtain ⟨hopened, hdepth⟩ := step_eq b piece
      obtain ⟨hopened', hdepth'⟩ := ih (b.step piece)
      rw [List.foldl_cons, List.foldl_cons, List.countP_cons, hopened', hdepth', hopened, hdepth]
      exact ⟨by omega, rfl⟩

end Builder

/-- Pieces that close what they open make a tree with an element for each start tag. -/
theorem countElements_treeOf {pieces : List Piece} (h : pieces.foldl Piece.depthAfter 0 = 0) :
    Node.countElements (treeOf pieces) = pieces.countP Piece.isOpening := by
  obtain ⟨hopened, hdepth⟩ := Builder.foldl_step_eq pieces {}
  have hstack : (pieces.foldl Builder.step {}).stack = [] := List.eq_nil_of_length_eq_zero (hdepth.trans h)
  have hempty : (({} : Builder)).opened = 0 := rfl
  rw [Builder.opened, hstack, hempty, Builder.countStack] at hopened
  rw [treeOf, Node.countElements_reverse]
  omega

theorem opens_withoutMark {s : List Char} {n : Nat} (h : Opens s n) : Opens (withoutMark s) n := by
  unfold withoutMark
  cases s with
  | nil => exact h
  | cons c s =>
      dsimp only
      split
      next hmark =>
        refine h.pass ?_
        rintro rfl
        exact absurd hmark (by decide)
      next => exact h

theorem opens_joinLineEnds {s : List Char} {n : Nat} (h : Opens s n) : Opens (joinLineEnds s) n := by
  obtain ⟨tokens, htokens, rfl⟩ := h
  refine ⟨_, htokens.joined, ?_⟩
  rw [List.countP_map]
  refine List.countP_congr fun token _ => ?_
  cases token <;> rfl

/-- A document that is read has an element for every start tag among its tokens. -/
theorem length_list_of_read {source : List Char} {contents : Contents} (h : read source = .ok contents) {n : Nat}
    (hn : Opens source n) : (Numbered.list contents.tree).length = n := by
  have hopens := opens_joinLineEnds (opens_withoutMark hn)
  obtain ⟨s, hdocument, -⟩ := exists_document_of_read h
  obtain ⟨hcount, hdepth⟩ := Reading.document_eq_ok hdocument hopens
  rw [Numbered.list, Numbered.length_listFrom, Contents.tree, countElements_treeOf, (joined_eq _).1, hcount]
  rw [(joined_eq _).2, hdepth]

end Xml

end MarkupIds
