import MarkupIds.Xml.Document
import MarkupIds.Xml.Token
import MarkupIds.Markup.Tree
import MarkupIds.Selection
import MarkupIds.Options.Basic
import MarkupIds.Ident.Generator
import MarkupIds.Text.Position

/-! Ids for the elements of an XML document, in one pass over its tokens. Start tags that get an id
are written anew, all other tokens stay as they are. -/

namespace MarkupIds.Xml

open MarkupIds.Markup (Numbered)

structure Surroundings where
  picked : Picked := none
  texts : Option (List (List Char)) := none

/-- Ids on their way into a document. -/
structure Progress where
  generator : Generator := {}
  visited : Nat := 0
  assigned : Nat := 0
  openRanks : List Nat := []
  output : List Token := []

namespace Progress

def existing? (o : Options) (t : StartTag) : Option (List Char) :=
  findAttribute (t.attributes.map fun a => (a.name, a.value)) o.attr

/-- The progress after a start tag. -/
def openTag (o : Options) (around : Surroundings) (p : Progress) (t : StartTag) :
    Except Failure Progress :=
  let rank := p.visited
  let path := rank :: p.openRanks
  let passed := { p with visited := rank + 1, openRanks := if t.isEmptyElement then p.openRanks else path }
  if around.picked.has rank then
    match around.texts.map fun texts => texts[rank]? with
    | some none => .error .missingElement
    | found =>
      if o.admits (String.ofList t.name) (existing? o t) then
        let text := found.bind id
        let (id, generator) := p.generator.generate
          { name := String.ofList t.name, path := path.reverse.map Int.ofNat, text } o
        .ok { passed with
          generator
          assigned := p.assigned + 1
          output := .opening (t.withId o.overwrite o.attr id.toList) :: p.output }
      else .ok { passed with output := .opening t :: p.output }
  else .ok { passed with output := .opening t :: p.output }

def step (o : Options) (around : Surroundings) (p : Progress) : Token → Except Failure Progress
  | .opening t => p.openTag o around t
  | .closing raw =>
    .ok { p with openRanks := p.openRanks.drop 1, output := .closing raw :: p.output }
  | .other raw => .ok { p with output := .other raw :: p.output }

def text (p : Progress) : List Char := p.output.reverse.flatMap Token.text

end Progress

/-- The tokens of a text given their ids; markup that is no token is a failure. -/
def assignTokens (source : List Char) (o : Options) (around : Surroundings) :
    Except Failure Progress :=
  let (tokens, rest) := Token.list source
  match tokens.foldlM (Progress.step o around) {} with
  | .error failure => .error failure
  | .ok p =>
    if rest.isEmpty then .ok p
    else
      let place := Text.positionAt source (source.length - rest.length)
      .error (.unexpectedMarkup place.line (place.column + 1))

/-- The document with ids. A blank text is no document and stays as it is. -/
def assign (source : List Char) (o : Options) : Outcome :=
  if Text.allBlank source then { result := .ok source }
  else
    match o.readSelector .xml with
    | .error failure => { result := .error failure }
    | .ok selector =>
      match read source with
      | .error problem => { result := .error (.notWellFormed problem) }
      | .ok contents =>
        let around : Surroundings :=
          { picked := selector.map fun choice => Selector.ranksIn choice true contents.selectorTree
            texts := if o.strategy == .slug
              then some ((Numbered.list contents.tree).map Numbered.ownText) else none }
        match assignTokens source o around with
        | .error failure => { result := .error failure }
        | .ok p =>
          { events := [o.assignedEvent .xml p.visited p.assigned]
            result := .ok p.text }

end MarkupIds.Xml
