import MarkupIds.Markup.Tree

/-! Elements of a document together with what surrounds them. -/

namespace MarkupIds.Markup

/-- An element, its rank among all elements of the document, the nodes around it (those before it in
reverse), and the element that it is in. The document itself is a place outside of all others. -/
inductive Place where
  | mk (tag : Tag) (children : List Node) (rank : Option Nat) (before after : List Node)
      (parent : Option Place)

namespace Place

def tag : Place → Tag
  | mk tag _ _ _ _ _ => tag

def children : Place → List Node
  | mk _ children _ _ _ _ => children

/-- The rank among all elements in the order of their start tags; the document has none. -/
def rank : Place → Option Nat
  | mk _ _ rank _ _ _ => rank

/-- The nodes before the element, the nearest first. -/
def before : Place → List Node
  | mk _ _ _ before _ _ => before

def after : Place → List Node
  | mk _ _ _ _ after _ => after

def parent : Place → Option Place
  | mk _ _ _ _ _ parent => parent

def documentName : String := "[document]"

def document (nodes : List Node) : Place := mk { name := documentName } nodes none [] [] none

def same (a b : Place) : Bool := a.rank == b.rank

/-- All that the element is in, the nearest first. -/
def ancestors : Place → List Place
  | mk _ _ _ _ _ none => []
  | mk _ _ _ _ _ (some parent) => parent :: parent.ancestors

/-- The elements among some nodes, which follow `before` inside `parent`, the first of them having
the rank `rank`. -/
def siblingsFrom (parent : Option Place) (rank : Nat) (before : List Node) :
    List Node → List Place
  | [] => []
  | .element tag children :: rest =>
    mk tag children (some rank) before rest parent ::
      siblingsFrom parent (rank + 1 + Node.countElements children)
        (.element tag children :: before) rest
  | .text kind content :: rest => siblingsFrom parent rank (.text kind content :: before) rest

/-- The rank of the first element inside a place. -/
def firstInside (p : Place) : Nat :=
  match p.rank with
  | some n => n + 1
  | none => 0

def childPlaces (p : Place) : List Place := siblingsFrom (some p) p.firstInside [] p.children

def siblings (p : Place) : List Place :=
  match p.parent with
  | some parent => parent.childPlaces
  | none => [p]

/-- The elements before a place, the nearest first. -/
def earlier (p : Place) : List Place :=
  ((p.siblings).takeWhile fun q => !q.same p).reverse

def later (p : Place) : List Place := ((p.siblings).dropWhile fun q => !q.same p).drop 1

/-- All elements among some nodes and inside them, in the order of their start tags; `closed` tells
whose content is left out. -/
def allFrom (closed : Tag → Bool) (parent : Option Place) (rank : Nat) (before : List Node) :
    List Node → List Place
  | [] => []
  | .element tag children :: rest =>
    let here := mk tag children (some rank) before rest parent
    let inside := if closed tag then [] else allFrom closed (some here) (rank + 1) [] children
    here :: inside ++
      allFrom closed parent (rank + 1 + Node.countElements children)
        (.element tag children :: before) rest
  | .text kind content :: rest => allFrom closed parent rank (.text kind content :: before) rest

/-- All elements inside a place; the content of elements that are `closed` is left out. -/
def inside (closed : Tag → Bool) (p : Place) : List Place :=
  if closed p.tag then [] else allFrom closed (some p) p.firstInside [] p.children

def allOf (nodes : List Node) : List Place := (document nodes).inside fun _ => false

end Place

namespace Node

/-- The pieces of text, at any depth, that are neither comments nor the like; the content of elements
that are `closed` is left out. -/
def textPieces (closed : Tag → Bool) : List Node → List (List Char)
  | [] => []
  | .text .plain content :: rest => content :: textPieces closed rest
  | .text _ _ :: rest => textPieces closed rest
  | .element tag children :: rest =>
    (if closed tag then [] else textPieces closed children) ++ textPieces closed rest

def ownTexts (nodes : List Node) : List (List Char) := nodes.filterMap plainText?

end Node

end MarkupIds.Markup
