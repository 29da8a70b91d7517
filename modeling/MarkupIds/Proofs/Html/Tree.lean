import Mathlib.Data.List.Forall2
import MarkupIds.Html.Tree

/-! The tree of a document as far as it does not depend on one attribute, nor on places in the text. -/

namespace MarkupIds.Markup

namespace Tag

/-- The tag without an attribute and without its place. -/
def forget (attr : String) (t : Tag) : Tag :=
  { t with attributes := t.attributes.filter (·.name != attr), position := Text.Position.start }

@[simp] theorem forget_name (attr : String) (t : Tag) : (t.forget attr).name = t.name := rfl

/-- A new attribute makes no difference to the others. -/
theorem filter_putAttribute (attr : String) (attributes : List Attribute) (a : Attribute) :
    (putAttribute attributes a).filter (·.name != attr) =
      if a.name = attr then attributes.filter (·.name != attr)
      else putAttribute (attributes.filter (·.name != attr)) a := by
  have hname (b : Attribute) :
      (if b.name == a.name then { b with value := a.value } else b).name = b.name := by
    split <;> rfl
  have hmap : (attributes.map fun b => if b.name == a.name then { b with value := a.value } else b).filter
      (·.name != attr) =
      (attributes.filter (·.name != attr)).map fun b =>
        if b.name == a.name then { b with value := a.value } else b := by
    rw [List.filter_map]
    congr 2
    funext b
    simp only [Function.comp, hname]
  have hkept (hne : a.name ≠ attr) : (attributes.filter (·.name != attr)).any (·.name == a.name) =
      attributes.any (·.name == a.name) := by
    rw [List.any_filter]
    refine congrArg _ (funext fun b => ?_)
    by_cases hb : b.name = a.name
    · simp [hb, hne]
    · simp [hb]
  unfold putAttribute
  by_cases ha : a.name = attr
  · rw [if_pos ha]
    split
    · rw [hmap]
      refine (List.map_congr_left ?_).trans (List.map_id _)
      intro b hb
      have hb' : b.name ≠ a.name := by
        rw [ha]
        simpa using (List.mem_filter.mp hb).2
      rw [if_neg (by simpa using hb')]
      rfl
    · rw [List.filter_append]
      simp [ha]
  · rw [if_neg ha, hkept ha]
    split
    · exact hmap
    · rw [List.filter_append]
      simp [ha]

end Tag

namespace Node

mutual

/-- The node without an attribute and without places. -/
def forget (attr : String) : Node → Node
  | .element tag children => .element (tag.forget attr) (forgetAll attr children)
  | .text kind content => .text kind content

/-- The nodes without an attribute and without places. -/
def forgetAll (attr : String) : List Node → List Node
  | [] => []
  | node :: rest => node.forget attr :: forgetAll attr rest

end

theorem forgetAll_eq_map (attr : String) (nodes : List Node) :
    forgetAll attr nodes = nodes.map (forget attr) := by
  induction nodes with
  | nil => rfl
  | cons node rest ih => rw [forgetAll, ih, List.map_cons]

mutual

/-- The tags of a node, in the order in which they stand in the text. -/
def tags : Node → List Tag
  | .element tag children => tag :: tagsOf children
  | .text .. => []

/-- The tags of some nodes. -/
def tagsOf : List Node → List Tag
  | [] => []
  | node :: rest => node.tags ++ tagsOf rest

end

theorem tagsOf_append (a b : List Node) : tagsOf (a ++ b) = tagsOf a ++ tagsOf b := by
  induction a with
  | nil => rfl
  | cons node a ih => rw [List.cons_append, tagsOf, tagsOf, ih, List.append_assoc]

mutual

theorem tags_forget (attr : String) : (node : Node) →
    (node.forget attr).tags = node.tags.map (Tag.forget attr)
  | .element tag children => by
      rw [forget, tags, tags, List.map_cons, tagsOf_forgetAll attr children]
  | .text .. => rfl

theorem tagsOf_forgetAll (attr : String) : (nodes : List Node) →
    tagsOf (forgetAll attr nodes) = (tagsOf nodes).map (Tag.forget attr)
  | [] => rfl
  | node :: rest => by
      rw [forgetAll, tagsOf, tagsOf, List.map_append, tags_forget attr node,
        tagsOf_forgetAll attr rest]

end

end Node

end MarkupIds.Markup

namespace MarkupIds.Html

open MarkupIds.Markup (Node Tag)
open MarkupIds.Text (Position)

/-- The token without an attribute. -/
def Token.forget (attr : String) : Token → Token
  | .opening name attributes closed => .opening name (attributes.filter (·.1 != attr)) closed
  | token => token

/-- The open element without an attribute. -/
def OpenElement.forget (attr : String) (e : OpenElement) : OpenElement :=
  ⟨e.tag.forget attr, e.content.map (Node.forget attr)⟩

namespace Builder

/-- The document under construction without an attribute. -/
def forget (attr : String) (b : Builder) : Builder :=
  { b with stack := b.stack.map (OpenElement.forget attr), top := b.top.map (Node.forget attr) }

variable (attr : String) (b : Builder)

@[simp] theorem forget_pending : (b.forget attr).pending = b.pending := rfl

@[simp] theorem forget_settled : (b.forget attr).settled = b.settled := rfl

theorem forget_add (node : Node) : (b.add node).forget attr = (b.forget attr).add (node.forget attr) := by
  obtain ⟨stack, top, pending, settled⟩ := b
  cases stack <;> rfl

theorem forget_flush : b.flush.forget attr = (b.forget attr).flush := by
  have hkept : (b.forget attr).stack.any (fun e => preformattedElements.contains e.tag.name) =
      b.stack.any fun e => preformattedElements.contains e.tag.name := by
    simp only [forget, List.any_map]
    rfl
  unfold flush
  rw [hkept, forget_pending]
  by_cases hpending : b.pending.isEmpty = true
  · rw [if_pos hpending, if_pos hpending]
  · rw [if_neg hpending, if_neg hpending]
    have hadd := forget_add attr b (.text .plain
      (if b.stack.any fun e => preformattedElements.contains e.tag.name then b.pending
        else collapsed b.pending))
    exact congrArg (fun b : Builder => { b with pending := [] }) hadd

theorem forget_pop : b.pop.forget attr = (b.forget attr).pop := by
  obtain ⟨stack, top, pending, settled⟩ := b
  cases stack with
  | nil => rfl
  | cons e rest =>
      refine (forget_add attr ⟨rest, top, pending, settled⟩ _).trans ?_
      rw [Node.forget, Node.forgetAll_eq_map, List.map_reverse]
      rfl

theorem forget_popMany (n : Nat) : (b.popMany n).forget attr = (b.forget attr).popMany n := by
  induction n generalizing b with
  | zero => rfl
  | succ n ih => rw [popMany, popMany, ih, forget_pop]

theorem forget_closeNearest (name : String) :
    (b.closeNearest name).forget attr = (b.forget attr).closeNearest name := by
  unfold closeNearest
  rw [← forget_flush]
  have hfind : (b.flush.forget attr).stack.findIdx? (fun e => e.tag.name == name) =
      b.flush.stack.findIdx? fun e => e.tag.name == name := by
    simp only [forget, List.findIdx?_map]
    rfl
  dsimp only
  rw [hfind]
  split
  · exact forget_popMany attr _ _
  · rfl

theorem forget_close (name : String) : (b.close name).forget attr = (b.forget attr).close name := by
  unfold close
  change _ = if b.settled.contains name then _ else _
  split
  · rfl
  · exact forget_closeNearest attr b name

theorem forget_attributesOf (attributes : List (String × String)) :
    (attributesOf attributes).filter (·.name != attr) =
      attributesOf (attributes.filter (·.1 != attr)) := by
  suffices h : ∀ all : List Markup.Attribute,
      (attributes.foldl (fun all a => Tag.putAttribute all ⟨a.1, a.2, none, none⟩) all).filter
        (·.name != attr) =
      (attributes.filter (·.1 != attr)).foldl
        (fun all a => Tag.putAttribute all ⟨a.1, a.2, none, none⟩) (all.filter (·.name != attr)) from h []
  induction attributes with
  | nil => exact fun all => rfl
  | cons a attributes ih =>
      intro all
      rw [List.foldl_cons, ih, Tag.filter_putAttribute]
      by_cases ha : a.1 = attr
      · rw [if_pos ha, List.filter_cons_of_neg (by simpa using ha)]
      · rw [if_neg ha, List.filter_cons_of_pos (by simpa using ha), List.foldl_cons]

theorem forget_openTag (p : Position) (name : String) (attributes : List (String × String))
    (closed : Bool) :
    (b.openTag p name attributes closed).forget attr =
      (b.forget attr).openTag Position.start name (attributes.filter (·.1 != attr)) closed := by
  let tag : Tag := { name, attributes := attributesOf attributes, position := p }
  have hpush : (b.flush.push tag).forget attr = (b.forget attr).flush.push
      { name, attributes := attributesOf (attributes.filter (·.1 != attr)) } := by
    rw [← forget_flush, ← forget_attributesOf]
    rfl
  have hsettled := congrArg Builder.settled hpush
  rw [forget_settled] at hsettled
  unfold openTag
  dsimp only
  split
  · rw [forget_close, hpush]
  split
  · have hclose := forget_closeNearest attr (b.flush.push tag) name
    rw [hpush] at hclose
    rw [← hsettled]
    exact congrArg (fun c : Builder => { c with settled := (b.flush.push tag).settled ++ [name] }) hclose
  · exact hpush

theorem forget_step (p : Position) (token : Token) :
    (b.step p token).forget attr = (b.forget attr).step Position.start (token.forget attr) := by
  cases token with
  | opening name attributes closed => exact forget_openTag attr b p name attributes closed
  | closing name => exact forget_close attr b name
  | text content => rfl
  | special kind content =>
      refine (forget_add attr b.flush _).trans ?_
      rw [forget_flush]
      rfl

theorem forget_finish : b.finish.map (Node.forget attr) = (b.forget attr).finish := by
  have hpop := forget_popMany attr b.flush b.flush.stack.length
  have hlength : (b.forget attr).flush.stack.length = b.flush.stack.length := by
    rw [← forget_flush]
    exact List.length_map _
  unfold finish
  dsimp only
  rw [hlength, ← forget_flush, ← hpop, List.map_reverse]
  rfl

end Builder

/-- The attributes of an element other than `attr`. -/
def others (attr : String) (attributes : List (String × String)) : List Markup.Attribute :=
  Builder.attributesOf (attributes.filter (·.1 != attr))

/-- Tokens that are the same but for one attribute. -/
inductive SameBut (attr : String) : Token → Token → Prop where
  | same (token : Token) : SameBut attr token token
  | opening (name : String) {attributes attributes' : List (String × String)} (closed : Bool)
      (h : others attr attributes = others attr attributes') :
      SameBut attr (.opening name attributes closed) (.opening name attributes' closed)

theorem forget_step_congr {attr : String} {t u : Token} (h : SameBut attr t u) {b c : Builder}
    (hb : b.forget attr = c.forget attr) (p q : Position) :
    (b.step p t).forget attr = (c.step q u).forget attr := by
  rw [Builder.forget_step, Builder.forget_step, hb]
  cases h with
  | same => rfl
  | opening name closed h =>
      simp only [Token.forget, Builder.step, Builder.openTag]
      rw [show Builder.attributesOf _ = _ from h]
      rfl

/-- Where the tokens agree but for one attribute, the trees do. -/
theorem forget_treeOf {attr : String} {tokens tokens' : List (Position × Token)}
    (h : List.Forall₂ (fun t u => SameBut attr t.2 u.2) tokens tokens') :
    (treeOf tokens).map (Node.forget attr) = (treeOf tokens').map (Node.forget attr) := by
  suffices hfold : ∀ b c : Builder, b.forget attr = c.forget attr →
      (tokens.foldl (fun b t => b.step t.1 t.2) b).forget attr =
        (tokens'.foldl (fun b t => b.step t.1 t.2) c).forget attr by
    rw [treeOf, treeOf, Builder.forget_finish, Builder.forget_finish, hfold {} {} rfl]
  induction h with
  | nil => exact fun b c hbc => hbc
  | @cons t u tokens tokens' htu _ ih =>
      intro b c hbc
      exact ih _ _ (forget_step_congr htu hbc t.1 u.1)

namespace Builder

/-- The tags of a document under construction, in the order in which they stand in the text. -/
def tags (b : Builder) : List Tag :=
  Node.tagsOf b.top.reverse ++ b.stack.reverse.flatMap fun e => e.tag :: Node.tagsOf e.content.reverse

variable (b : Builder)

theorem tags_add (node : Node) : (b.add node).tags = b.tags ++ node.tags := by
  obtain ⟨stack, top, pending, settled⟩ := b
  cases stack with
  | nil => simp [add, tags, Node.tagsOf_append, Node.tagsOf]
  | cons e rest => simp [add, tags, Node.tagsOf_append, Node.tagsOf]

theorem tags_flush : b.flush.tags = b.tags := by
  unfold flush
  split
  · rfl
  · exact (tags_add b _).trans (List.append_nil _)

theorem tags_pop : b.pop.tags = b.tags := by
  obtain ⟨stack, top, pending, settled⟩ := b
  cases stack with
  | nil => rfl
  | cons e rest =>
      refine (tags_add ⟨rest, top, pending, settled⟩ _).trans ?_
      simp [tags, Node.tags]

theorem tags_popMany (n : Nat) : (b.popMany n).tags = b.tags := by
  induction n generalizing b with
  | zero => rfl
  | succ n ih => rw [popMany, ih, tags_pop]

theorem tags_closeNearest (name : String) : (b.closeNearest name).tags = b.tags := by
  unfold closeNearest
  dsimp only
  split
  · rw [tags_popMany, tags_flush]
  · exact tags_flush b

theorem tags_close (name : String) : (b.close name).tags = b.tags := by
  unfold close
  split
  · rfl
  · exact tags_closeNearest b name

theorem tags_push (tag : Tag) : (b.push tag).tags = b.tags ++ [tag] := by
  simp [push, tags, Node.tagsOf]

theorem tags_openTag (p : Position) (name : String) (attributes : List (String × String))
    (closed : Bool) :
    (b.openTag p name attributes closed).tags =
      b.tags ++ [{ name, attributes := attributesOf attributes, position := p }] := by
  have hpush := tags_push b.flush { name, attributes := attributesOf attributes, position := p }
  rw [tags_flush] at hpush
  unfold openTag
  dsimp only
  split
  · rw [tags_close, hpush]
  split
  · exact (tags_closeNearest _ name).trans hpush
  · exact hpush

/-- The tag that a token is, at its place. -/
def tagAt? (p : Position) : Token → Option Tag
  | .opening name attributes _ => some { name, attributes := attributesOf attributes, position := p }
  | _ => none

theorem tags_step (p : Position) (token : Token) :
    (b.step p token).tags = b.tags ++ (tagAt? p token).toList := by
  cases token with
  | opening name attributes closed => exact tags_openTag b p name attributes closed
  | closing name => exact (tags_close b name).trans (List.append_nil _).symm
  | text content => exact (List.append_nil _).symm
  | special kind content =>
      refine (tags_add b.flush _).trans ?_
      rw [tags_flush]
      rfl

theorem length_stack_popMany (n : Nat) : (b.popMany n).stack.length = b.stack.length - n := by
  have hpop (b : Builder) : b.pop.stack.length = b.stack.length - 1 := by
    obtain ⟨stack, top, pending, settled⟩ := b
    cases stack with
    | nil => rfl
    | cons e rest => cases rest <;> rfl
  induction n generalizing b with
  | zero => rfl
  | succ n ih => rw [popMany, ih, hpop, Nat.sub_sub, Nat.add_comm 1 n]

theorem tagsOf_finish : Node.tagsOf b.finish = b.tags := by
  have hstack : (b.flush.popMany b.flush.stack.length).stack = [] := by
    rw [← List.length_eq_zero_iff, length_stack_popMany, Nat.sub_self]
  have htags := tags_popMany b.flush b.flush.stack.length
  rw [tags_flush, tags, hstack, List.reverse_nil, List.flatMap_nil, List.append_nil] at htags
  exact htags

end Builder

/-- The elements of the tree are the start tags, in the order in which they stand in the text. -/
theorem tagsOf_treeOf (tokens : List (Position × Token)) :
    Node.tagsOf (treeOf tokens) = tokens.filterMap fun t => Builder.tagAt? t.1 t.2 := by
  suffices h : ∀ b : Builder, (tokens.foldl (fun b t => b.step t.1 t.2) b).tags =
      b.tags ++ tokens.filterMap fun t => Builder.tagAt? t.1 t.2 by
    rw [treeOf, Builder.tagsOf_finish, h]
    rfl
  induction tokens with
  | nil => exact fun b => (List.append_nil _).symm
  | cons t tokens ih =>
      intro b
      rw [List.foldl_cons, ih, Builder.tags_step, List.append_assoc, List.filterMap_cons]
      congr 1
      cases Builder.tagAt? t.1 t.2 <;> rfl

end MarkupIds.Html
