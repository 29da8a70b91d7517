import MarkupIds.Jsx.Tree
import MarkupIds.Selection
import MarkupIds.Options.Basic
import MarkupIds.Ident.Generator
import MarkupIds.Markup.Escape
import MarkupIds.Text.Lowercase
import MarkupIds.Edit
import MarkupIds.Walk

/-! Ids for the elements of a program. Elements whose names start in lower case get one; components
and what stands inside start tags get none. Only start tags change. -/

namespace MarkupIds.Jsx

def isHostElement (name : List Char) : Bool :=
  match name with
  | [] => false
  | c :: _ => Text.isLowercase c

def lastPart (name : List Char) : List Char :=
  Text.trim ((Text.splitWhere (fun c => c == '.' || c == ':') (Text.trim name)).getLastD [])

def escapeValue (s : List Char) : List Char :=
  s.flatMap fun c =>
    if c == '&' then "&amp;".toList else if c == '"' then "&quot;".toList else [c]

/-- Ids on their way into a program. -/
structure Progress where
  generator : Generator := {}
  edits : List Edit := []
  visited : Nat := 0
  assigned : Nat := 0

namespace Tag

/-- The first value that the attribute has as a string. -/
def existing? (t : Tag) (attr : List Char) : Option (List Char) :=
  findAttribute (t.attributes.filterMap fun a => a.name.bind fun n => a.literal.map fun v => (n, v))
    attr

def removed (t : Tag) (o : Options) : List Attribute :=
  if o.overwrite then t.attributes.filter fun a => a.name == some o.attr else []

def kept (t : Tag) (o : Options) : List Attribute :=
  if o.overwrite then t.attributes.filter fun a => a.name != some o.attr else t.attributes

/-- The tag gets an id: it is no component's, and admitted with the first value that the attribute has
as a string. -/
def isAccepted (o : Options) (t : Tag) : Bool :=
  isHostElement (lastPart t.name) && o.admits (String.ofList (lastPart t.name)) (t.existing? o.attr)

/-- The edits that put an id into the tag: attributes are removed with what stands before them, and
the new one stands behind the last that stays, or behind the name. -/
def edits (t : Tag) (o : Options) (id : List Char) : List Edit :=
  let place := ((t.kept o).getLast?.map (·.stop)).getD t.nameStop
  (t.removed o).map (fun a => ⟨a.before, a.stop, []⟩) ++
    [⟨place, place, Markup.written o.attr (escapeValue id)⟩]

end Tag

namespace Progress

/-- The progress after a start tag; `path` holds for each element around it, and itself, how many
ids had been assigned before it. -/
def visit (o : Options) (path : List Nat) (tag : Tag) (children : List Node) (p : Progress) :
    Progress :=
  let p := { p with visited := p.visited + 1 }
  let name := lastPart tag.name
  if tag.isAccepted o then
    let text := if o.strategy == .slug then some (Node.textOf children) else none
    let (id, generator) := p.generator.generate
      { name := String.ofList name, path := path.map Int.ofNat, text } o
    { generator := generator.increment
      edits := (tag.edits o id.toList).reverse ++ p.edits
      visited := p.visited
      assigned := p.assigned + 1 }
  else p

def event (p : Progress) : Event :=
  { level := .debug
    name := "jsx_ids_assigned"
    fields := [("visited", .int p.visited), ("assigned", .int p.assigned),
      ("edits", .int p.edits.length)] }

end Progress

/-- Where a walk over a program is: what it had assigned when it came to each element around. -/
structure Round where
  path : List Nat := []
  progress : Progress := {}

def isOpening : Grammar.Tree Kind → Bool
  | .branch .opening .. => true
  | _ => false

/-- The parts of a tree that a walk comes to. Start tags are not looked into. -/
def innerParts : Grammar.Tree Kind → List (Grammar.Tree Kind)
  | .branch .element _ _ parts => parts.filter fun part => !isOpening part
  | .branch .opening .. => []
  | .branch _ _ _ parts => parts
  | .leaf .. => []

def isElement : Grammar.Tree Kind → Bool
  | .branch .element .. => true
  | _ => false

namespace Round

/-- The walk enters a tree. An element or fragment goes onto the path, and its start tag is looked at. -/
def enter (o : Options) (tree : Grammar.Tree Kind) (r : Round) : Round :=
  match tree with
  | .branch .element _ _ parts =>
    let path := r.path ++ [r.progress.generator.counter]
    match tagIn parts with
    | some tag => ⟨path, r.progress.visit o path tag (nodesOf parts)⟩
    | none => { r with path }
  | _ => r

def leave (r : Round) : Round := { r with path := r.path.dropLast }

end Round

/-- The walk that gives ids to the elements of a program. -/
def giving (o : Options) : Walk (Grammar.Tree Kind) Round where
  parts := innerParts
  ends := isElement
  enter := Round.enter o
  leave := Round.leave

mutual

def steps : Grammar.Tree Kind → Nat
  | .leaf .. => 1
  | .branch _ _ _ parts => stepsOver parts + 2

def stepsOver : List (Grammar.Tree Kind) → Nat
  | [] => 0
  | tree :: rest => steps tree + stepsOver rest

end

def Progress.ofTrees (o : Options) (trees : List (Grammar.Tree Kind)) : Progress :=
  ((giving o).run (stepsOver trees) (trees.map .enter, {})).2.progress

def byteCount (s : List Char) : Nat := s.foldl (fun count c => count + c.utf8Size) 0

/-- The program with ids, where it is read in a given way. -/
def assign (source : List Char) (o : Options) (read : optParam Reader reader) : Outcome :=
  match read source with
  | .error fault => { result := .error (.badSource fault) }
  | .ok trees =>
    let p := Progress.ofTrees o trees
    match Edit.splice source p.edits.reverse with
    | .error start =>
      { result := .error (.overlappingAttributes (byteCount (source.take start))) }
    | .ok text => { events := [p.event], result := .ok text }

mutual

/-- The text of some element that gets an id takes more than `depth` calls at once. -/
def Node.strains (o : Options) (depth : Nat) : Node → Bool
  | .element tag children =>
    (tag.any (·.isAccepted o) && depth < callsFor children + 1) || anyStrains o depth children
  | .expression _ inside => anyStrains o depth inside
  | .text _ => false

def Node.anyStrains (o : Options) (depth : Nat) : List Node → Bool
  | [] => false
  | node :: rest => node.strains o depth || anyStrains o depth rest

end

end MarkupIds.Jsx
