import MarkupIds.Value.Basic

/-! Events that a run reports while it works, and the lines that show them. -/

namespace MarkupIds

/-- How much an event matters. -/
inductive Level where
  | debug
  | info
  | warning
  | error
  | critical
deriving DecidableEq, Repr

namespace Level

def all : List Level := [debug, info, warning, error, critical]

/-- The word for a level. -/
def name : Level → String
  | .debug => "DEBUG"
  | .info => "INFO"
  | .warning => "WARNING"
  | .error => "ERROR"
  | .critical => "CRITICAL"

/-- The rank of a level. -/
def rank : Level → Nat
  | .debug => 0
  | .info => 1
  | .warning => 2
  | .error => 3
  | .critical => 4

def ofName? (s : String) : Option Level := all.find? fun level => level.name == s

end Level

/-- An event with its fields. -/
structure Event where
  level : Level
  name : String
  fields : List (String × Value) := []

namespace Event

def record (e : Event) : Value :=
  .record ((.text "event", .text e.name) :: e.fields.map fun f => (.text f.1, f.2))

def payload (e : Event) : String := e.record.json

def line (e : Event) : String := e.level.name ++ " " ++ e.payload

/-- The events that matter at least as much as `threshold`. -/
def atLeast (threshold : Level) (events : List Event) : List Event :=
  events.filter fun e => threshold.rank ≤ e.level.rank

end Event

end MarkupIds
