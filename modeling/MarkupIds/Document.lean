import MarkupIds.Html.Assign
import MarkupIds.Xml.Assign
import MarkupIds.Jsx.Assign

/-! Ids for a document of any format. -/

namespace MarkupIds

/-- What the work on a document rests on: how programs are read, how many calls may be open at once for
the text of an element, and why the work with a selector on a text breaks off, if it does. -/
structure Host where
  read : Jsx.Reader := Jsx.reader
  depth : Nat := 980
  breaksOff : String → List Char → Option Strain := fun _ _ => none

/-- What is too much for the host in a document: slugs for a program, where an element is nested too
deeply, or the selector. -/
def Host.strain? (host : Host) (format : Format) (source : List Char) (o : Options) : Option Strain :=
  let selector := o.selector.bind fun s => host.breaksOff s source
  match format with
  | .html => selector
  | .jsx =>
    if o.strategy != .slug then none
    else
      match host.read source with
      | .ok trees => if Jsx.Node.anyStrains o host.depth (Jsx.nodesOf trees) then some .calls else none
      | .error _ => none
  | .xml => if Text.allBlank source then none else selector

def Format.assign (format : Format) (source : List Char) (o : Options) (host : optParam Host {}) : Outcome :=
  match host.strain? format source o with
  | some strain => { result := .error (.strained strain) }
  | none =>
    match format with
    | .html => Html.assign source o
    | .jsx => Jsx.assign source o host.read
    | .xml => Xml.assign source o

namespace Document

def processedEvent (format : Format) (o : Options) (source result : List Char) : Event :=
  { level := .info
    name := "document_processed"
    fields := [("file_type", .text format.name), ("strategy", .text o.strategy.name),
      ("input_chars", .int source.length), ("output_chars", .int result.length),
      ("elapsed_ms", .int 0)] }

def failedEvent (format : Format) (failure : Failure) : Event :=
  { level := .error
    name := "document_failed"
    fields := [("file_type", .text format.name), ("error_type", .text failure.label),
      ("error_message", .text failure.message), ("elapsed_ms", .int 0)] }

/-- The document with ids, and an event that tells how it ended. A failure that no caller expects is
not reported. -/
def process (format : Format) (source : List Char) (o : Options) (host : optParam Host {}) : Outcome :=
  let outcome := format.assign source o host
  match outcome.result with
  | .ok text =>
    { outcome with events := outcome.events ++ [processedEvent format o source text] }
  | .error failure =>
    if failure.isExpected then
      { outcome with events := outcome.events ++ [failedEvent format failure] }
    else outcome

end Document

end MarkupIds
