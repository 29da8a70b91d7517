import MarkupIds.Html.Tree
import MarkupIds.Html.StartTag
import MarkupIds.Markup.Tree
import MarkupIds.Selection
import MarkupIds.Options.Basic
import MarkupIds.Ident.Generator
import MarkupIds.Edit
import MarkupIds.Walk

/-! Ids for the elements of an HTML document. The tree decides which elements get one; the start tags
of the text receive them, and nothing else of the text changes. -/

namespace MarkupIds.Html

open MarkupIds.Markup (Node Numbered)

/-- Ids on their way into a document: what has been handed out, and the edits, the last first. -/
structure Progress where
  generator : Generator := {}
  edits : List Edit := []

def existing? (o : Options) (e : Numbered) : Option (List Char) :=
  (e.tag.attribute? (String.ofList (Text.lower o.attr))).map String.toList

def descriptor (o : Options) (e : Numbered) : Descriptor :=
  { name := e.tag.name
    path := e.path.map Int.ofNat
    text := if o.strategy == .slug then some e.ownText else none }

/-- The edit that puts an id into the start tag of an element. -/
def editFor (o : Options) (source : List Char) (starts : List Nat) (e : Numbered) (id : String) :
    Except Failure Edit :=
  let start := Text.offsetIn starts e.tag.position
  let lost : Failure := .lostStartTag e.tag.name e.tag.position.line
  match StartTag.read? (source.drop start) with
  | none => .error lost
  | some t =>
    if String.ofList (Text.lower t.name) == e.tag.name then
      .ok ⟨start, start + t.text.length, (t.withId o.overwrite o.attr id.toList).text⟩
    else .error lost

/-- The progress after one more element. -/
def visit (o : Options) (source : List Char) (starts : List Nat) (picked : Picked)
    (p : Progress) (e : Numbered) : Except Failure Progress :=
  if picked.has e.rank && o.admits e.tag.name (existing? o e) then
    let (id, generator) := p.generator.generate (descriptor o e) o
    match editFor o source starts e id with
    | .ok edit => .ok { generator, edits := edit :: p.edits }
    | .error failure => .error failure
  else .ok p

/-- Where a walk over a document is. -/
structure Round where
  path : List Nat := []
  count : Nat := 0
  progress : Except Failure Progress := .ok {}

namespace Round

def enter (o : Options) (source : List Char) (starts : List Nat) (picked : Picked) (node : Node) (r : Round) :
    Round :=
  match node with
  | .element tag children =>
    { path := r.path ++ [r.count]
      count := r.count + 1
      progress := r.progress >>= fun p => visit o source starts picked p ⟨tag, children, r.count, r.path⟩ }
  | .text .. => r

def leave (r : Round) : Round := { r with path := r.path.dropLast }

end Round

def giving (o : Options) (source : List Char) (picked : Picked) : Walk Node Round where
  parts := Node.children
  ends := Node.isElement
  enter := Round.enter o source (Text.lineStarts source) picked
  leave := Round.leave

def Round.ofNodes (o : Options) (source : List Char) (picked : Picked) (nodes : List Node) : Round :=
  ((giving o source picked).run (Node.stepsOver nodes) (nodes.map .enter, {})).2

/-- The document with ids. -/
def assign (source : List Char) (o : Options) : Outcome :=
  match o.readSelector .html with
  | .error failure => { result := .error failure }
  | .ok selector =>
    match parse source with
    | .error refusal => { result := .error (.refusedMarkup refusal) }
    | .ok nodes =>
      let round := Round.ofNodes o source (selector.map fun choice => Selector.ranksIn choice false nodes) nodes
      match round.progress with
      | .error failure => { result := .error failure }
      | .ok p =>
        { events := [o.assignedEvent .html round.count p.edits.length]
          result :=
            match Edit.splice source p.edits.reverse with
            | .ok text => .ok text
            | .error start => .error (.overlappingTags start) }

end MarkupIds.Html
