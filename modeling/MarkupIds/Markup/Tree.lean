import MarkupIds.Text.Position
import MarkupIds.Text.Blank

/-! Trees of elements and texts, as selectors and slugs see them, and their elements in the order of the start tags, each
with its position: the ranks of all that it is in, from the outside in, and its own. -/

namespace MarkupIds.Markup

/-- An attribute. `localName` and `uri` are known where a namespace stands behind the name. -/
structure Attribute where
  name : String
  value : String
  localName : Option String := none
  uri : Option String := none
deriving DecidableEq, Repr

/-- The kinds of text between tags. -/
inductive TextKind where
  | plain
  | cdata
  | comment
  | instruction
  | declaration
  | doctype
deriving DecidableEq, Repr

/-- The start of an element: its name, the prefix and the namespace, the attributes, and the place of
its start tag where that is known. -/
structure Tag where
  name : String
  written : String := name
  nsPrefix : Option String := none
  uri : Option String := none
  attributes : List Attribute := []
  position : Text.Position := Text.Position.start
deriving DecidableEq, Repr

/-- A piece of a document. -/
inductive Node where
  | element (tag : Tag) (children : List Node)
  | text (kind : TextKind) (content : List Char)

namespace Tag

def attribute? (t : Tag) (name : String) : Option String :=
  (t.attributes.find? fun a => a.name == name).map (·.value)

/-- The attributes with one more; a name that is already there takes the new value in its place. -/
def putAttribute (attributes : List Attribute) (a : Attribute) : List Attribute :=
  if attributes.any (fun b => b.name == a.name) then
    attributes.map fun b => if b.name == a.name then { b with value := a.value } else b
  else attributes ++ [a]

end Tag

namespace Node

def plainText? : Node → Option (List Char)
  | .text .plain content => some content
  | _ => none

def isElement : Node → Bool
  | .element .. => true
  | .text .. => false

def children : Node → List Node
  | .element _ children => children
  | .text .. => []

def joinTrimmed (pieces : List (List Char)) : List Char :=
  [' '].intercalate ((pieces.map Text.trim).filter fun piece => !piece.isEmpty)

mutual

/-- The number of elements that a node makes up, itself counted in. -/
def elementCount : Node → Nat
  | .element _ children => 1 + countElements children
  | .text .. => 0

def countElements : List Node → Nat
  | [] => 0
  | node :: rest => node.elementCount + countElements rest

end

mutual

def steps : Node → Nat
  | .element _ children => stepsOver children + 2
  | .text .. => 1

def stepsOver : List Node → Nat
  | [] => 0
  | node :: rest => node.steps + stepsOver rest

end

end Node

/-- An element with its content and its position. -/
structure Numbered where
  tag : Tag
  children : List Node
  rank : Nat
  outer : List Nat

namespace Numbered

def path (e : Numbered) : List Nat := e.outer ++ [e.rank]

mutual

/-- The elements that a node makes up, where the first has the rank `rank`. -/
def ofNode (outer : List Nat) (rank : Nat) : Node → List Numbered
  | .element tag children =>
    ⟨tag, children, rank, outer⟩ :: listFrom (outer ++ [rank]) (rank + 1) children
  | .text .. => []

/-- The elements among some nodes and inside them, where the first has the rank `rank`. -/
def listFrom (outer : List Nat) (rank : Nat) : List Node → List Numbered
  | [] => []
  | node :: rest => ofNode outer rank node ++ listFrom outer (rank + node.elementCount) rest

end

def list (nodes : List Node) : List Numbered := listFrom [] 0 nodes

def ownText (e : Numbered) : List Char := Node.joinTrimmed (e.children.filterMap Node.plainText?)

end Numbered

end MarkupIds.Markup
