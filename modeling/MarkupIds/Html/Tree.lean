import MarkupIds.Html.Scan

/-! The tree of an HTML document. Void elements are closed at once, an end tag closes the nearest
open element of its name together with all inside it, and one without such an element is ignored. -/

namespace MarkupIds.Html

open MarkupIds.Markup (Node Tag TextKind)
open MarkupIds.Text (Position)

def voidElements : List String :=
  ["area", "base", "br", "col", "embed", "hr", "img", "input", "keygen", "link", "menuitem", "meta",
   "param", "source", "track", "wbr", "basefont", "bgsound", "command", "frame", "image", "isindex",
   "nextid", "spacer"]

def preformattedElements : List String := ["pre", "textarea"]

/-- An element that is still open, with its content so far in reverse. -/
structure OpenElement where
  tag : Tag
  content : List Node := []

/-- A document under construction. -/
structure Builder where
  stack : List OpenElement := []
  top : List Node := []
  pending : List Char := []
  settled : List String := []

namespace Builder

/-- One more piece of content in the innermost open element. -/
def add (b : Builder) (node : Node) : Builder :=
  match b.stack with
  | [] => { b with top := node :: b.top }
  | e :: rest => { b with stack := { e with content := node :: e.content } :: rest }

def isPlainSpace (c : Char) : Bool :=
  c == ' ' || c == '\n' || c == '\t' || c.toNat == 12 || c == '\r'

/-- A text as it is kept: nothing but spaces becomes one space or one line feed. -/
def collapsed (s : List Char) : List Char :=
  if s.all isPlainSpace then (if s.contains '\n' then ['\n'] else [' ']) else s

def flush (b : Builder) : Builder :=
  if b.pending.isEmpty then b
  else
    let kept := b.stack.any fun e => preformattedElements.contains e.tag.name
    let content := if kept then b.pending else collapsed b.pending
    { b.add (.text .plain content) with pending := [] }

/-- The innermost element closed. -/
def pop (b : Builder) : Builder :=
  match b.stack with
  | [] => b
  | e :: rest => { b with stack := rest }.add (.element e.tag e.content.reverse)

def popMany (b : Builder) : Nat → Builder
  | 0 => b
  | count + 1 => b.pop.popMany count

/-- The nearest open element of a name closed, and all elements inside it. -/
def closeNearest (b : Builder) (name : String) : Builder :=
  let b := b.flush
  match b.stack.findIdx? fun e => e.tag.name == name with
  | some n => b.popMany (n + 1)
  | none => b

/-- An end tag. The first one after a void element of its name is redundant. -/
def close (b : Builder) (name : String) : Builder :=
  if b.settled.contains name then { b with settled := b.settled.erase name }
  else b.closeNearest name

def push (b : Builder) (tag : Tag) : Builder := { b with stack := ⟨tag, []⟩ :: b.stack }

/-- The attributes of an element, where the last of several with one name gives the value. -/
def attributesOf (attributes : List (String × String)) : List Markup.Attribute :=
  attributes.foldl (fun all a => Tag.putAttribute all ⟨a.1, a.2, none, none⟩) []

def openTag (b : Builder) (p : Position) (name : String) (attributes : List (String × String))
    (closed : Bool) : Builder :=
  let b := b.flush.push { name, attributes := attributesOf attributes, position := p }
  if closed then b.close name
  else if voidElements.contains name then
    { b.closeNearest name with settled := b.settled ++ [name] }
  else b

def step (b : Builder) (p : Position) : Token → Builder
  | .opening name attributes closed => b.openTag p name attributes closed
  | .closing name => b.close name
  | .text content => { b with pending := b.pending ++ content }
  | .special kind content => b.flush.add (.text kind content)

/-- The finished document: whatever is open is closed. -/
def finish (b : Builder) : List Node :=
  let b := b.flush
  (b.popMany b.stack.length).top.reverse

end Builder

def treeOf (tokens : List (Position × Token)) : List Node :=
  (tokens.foldl (fun b t => b.step t.1 t.2) ({} : Builder)).finish

def parse (s : List Char) : Except Refusal (List Node) := (scan s).map treeOf

end MarkupIds.Html
