import MarkupIds.Jsx.Statements

/-! The elements of a program, taken out of the trace of its reading. What stands inside a start tag
is not looked into. -/

namespace MarkupIds.Jsx

/-- An attribute, or an expression in its place, with its extent and the end of what stands before
it. -/
structure Attribute where
  name : Option (List Char)
  literal : Option (List Char)
  before : Nat
  start : Nat
  stop : Nat
deriving DecidableEq, Repr

/-- A start tag: the text of its name, where that ends, and its attributes. -/
structure Tag where
  name : List Char
  nameStop : Nat
  attributes : List Attribute
deriving DecidableEq, Repr

/-- What stands in a program. A fragment is an element without a tag. -/
inductive Node where
  | element (tag : Option Tag) (children : List Node)
  | text (content : List Char)
  /-- An expression in braces, with the string that it is if it is one, or anything else that is no
  element, with what stands inside. -/
  | expression (literal : Option (List Char)) (inside : List Node)

/-- The character that an escape stands for, by what follows the backslash; most stand for that. -/
def unescaped (s : List Char) : List Char :=
  if s == ['n'] then ['\n'] else if s == ['t'] then ['\t'] else if s == ['r'] then ['\r']
  else if s == ['b'] then ['\x08'] else if s == ['f'] then ['\x0c']
  else if s == ['v'] then ['\x0b'] else if s == ['0'] then ['\x00']
  else s

def meantText : Grammar.Tree Kind → List Char
  | .leaf .fragment _ _ text => text
  | .leaf .escape _ _ text => unescaped (text.drop 1)
  | _ => []

def writtenText : Grammar.Tree Kind → List Char
  | .leaf _ _ _ text => text
  | .branch .. => []

def stringIn (trees : List (Grammar.Tree Kind)) : Option (List (Grammar.Tree Kind)) :=
  trees.findSome? fun
    | .branch .string _ _ children => some children
    | _ => none

def stopOf : Grammar.Tree Kind → Nat
  | .leaf _ _ stop _ => stop
  | .branch _ _ stop _ => stop

def nameIn (trees : List (Grammar.Tree Kind)) : Option (List Char) :=
  trees.findSome? fun
    | .leaf .attributeName _ _ text => some text
    | _ => none

/-- The attributes among the parts of a start tag; `before` is the end of the part before them. -/
def attributesOf (before : Nat) : List (Grammar.Tree Kind) → List Attribute
  | [] => []
  | tree :: rest =>
    let others := attributesOf (stopOf tree) rest
    match tree with
    | .branch .attribute start stop parts =>
      { name := nameIn parts
        literal := (stringIn parts).map fun leaves => leaves.flatMap writtenText
        before, start, stop } :: others
    | .branch .expression start stop _ =>
      { name := none, literal := none, before, start, stop } :: others
    | _ => others

/-- The start tag made of some parts, if it has a name. -/
def tagOf : List (Grammar.Tree Kind) → Option Tag
  | [] => none
  | .leaf .name _ stop text :: rest => some ⟨text, stop, attributesOf stop rest⟩
  | _ :: rest => tagOf rest

def tagIn (trees : List (Grammar.Tree Kind)) : Option Tag :=
  trees.findSome? fun
    | .branch .opening _ _ parts => tagOf parts
    | _ => none

mutual

/-- The node that a tree stands for, if it does for any. -/
def nodeOf? : Grammar.Tree Kind → Option Node
  | .branch .element _ _ parts => some (.element (tagIn parts) (nodesOf parts))
  | .branch .expression _ _ parts =>
    some (.expression ((stringIn parts).map fun leaves => leaves.flatMap meantText) (nodesOf parts))
  | .branch .opening .. => none
  | .branch _ _ _ parts => some (.expression none (nodesOf parts))
  | .leaf .text _ _ text => some (.text text)
  | .leaf .reference _ _ text => some (.text text)
  | .leaf .. => none

def nodesOf : List (Grammar.Tree Kind) → List Node
  | [] => []
  | tree :: rest => (nodeOf? tree).toList ++ nodesOf rest

end

def reader : Reader := fun source =>
  match Grammar.parse? grammar .program source with
  | some trees => .ok trees
  | none => .error (.unplaced "<syntax>")

namespace Node

def joined (pieces : List (List Char)) : List Char :=
  Text.trim ([' '].intercalate (pieces.filter fun piece => !piece.isEmpty))

mutual

/-- The trimmed text of a node: of a string in braces what it says, and of an element what its pieces
make up. -/
def piece : Node → List Char
  | .text content => Text.trim content
  | .expression literal _ => Text.trim (literal.getD [])
  | .element _ children => joined (pieces children)

def pieces : List Node → List (List Char)
  | [] => []
  | node :: rest => node.piece :: pieces rest

end

def textOf (children : List Node) : List Char := joined (pieces children)

mutual

def calls : Node → Nat
  | .text _ => 0
  | .expression .. => 0
  | .element _ children => callsFor children + 1

def callsFor : List Node → Nat
  | [] => 0
  | node :: rest => max node.calls (callsFor rest)

end

end Node

end MarkupIds.Jsx
