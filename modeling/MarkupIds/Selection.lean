import MarkupIds.Selector.Match
import MarkupIds.Options.Basic
import MarkupIds.Failure

/-! The selector of the options at work: which elements it picks, and the event that tells how many
elements were visited and got an id. -/

namespace MarkupIds

namespace Options

/-- The selector of the options, read. -/
def readSelector (o : Options) (format : Format) : Except Failure (Option Selector.Choice) :=
  match o.selector with
  | none => .ok none
  | some s =>
    match Selector.parse s with
    | .ok choice => .ok (some choice)
    | .error (.malformed cause offset) => .error (.badSelector format s cause offset)
    | .error (.unsupported what offset) => .error (.unsupportedSelector what offset)

/-- The event after ids have been found for a document. -/
def assignedEvent (o : Options) (format : Format) (visited assigned : Nat) : Event :=
  { level := .debug
    name := format.name ++ "_ids_assigned"
    fields := [("visited", .int visited), ("assigned", .int assigned),
      ("selector", match o.selector with
        | none => .null
        | some s => .text s)] }

end Options

abbrev Picked := Option (List Nat)

namespace Picked

def has (picked : Picked) (rank : Nat) : Bool :=
  match picked with
  | none => true
  | some ranks => ranks.contains rank

end Picked

end MarkupIds
