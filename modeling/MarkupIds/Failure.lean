import MarkupIds.Format
import MarkupIds.Selector.Fault
import MarkupIds.Html.Token
import MarkupIds.Jsx.Syntax
import MarkupIds.Xml.Problem
import MarkupIds.Event

/-! Why a document could not be given ids. -/

namespace MarkupIds

/-- What a machine refuses to do: to have too many calls open at once, or to read a number of too many
digits. -/
inductive Strain where
  | calls
  | number (digits : Nat)
deriving DecidableEq, Repr

def Strain.message : Strain → String
  | calls => "maximum recursion depth exceeded"
  | number digits => Text.tooManyDigits digits

def Strain.label : Strain → String
  | calls => "RecursionError"
  | number _ => "ValueError"

/-- A cause of failure. -/
inductive Failure where
  | badSelector (format : Format) (selector : String) (cause : Selector.Cause) (offset : Nat)
  | unsupportedSelector (what : Selector.Unsupported) (offset : Nat)
  | refusedMarkup (refusal : Html.Refusal)
  | lostStartTag (name : String) (line : Nat)
  | overlappingTags (start : Nat)
  | badSource (fault : Jsx.Fault)
  | overlappingAttributes (start : Nat)
  | notWellFormed (problem : Xml.Problem)
  | unexpectedMarkup (line column : Nat)
  | missingElement
  | strained (strain : Strain)

/-- What kind of failure a cause is: a text that cannot be read, with the place if it is known; an
attribute that cannot be written; or one that no caller expects. -/
inductive FailureKind where
  | reading (format : Format) (place : Option (Nat × Nat))
  | writing
  | refusal
  | unsupported
  | missing
deriving DecidableEq, Repr

namespace Failure

/-- The kind of a cause. -/
def kind : Failure → FailureKind
  | badSelector format selector _ offset =>
    let context := Selector.contextAt (Selector.pattern selector) offset
    .reading format (some (context.line, context.column))
  | unsupportedSelector .. => .unsupported
  | refusedMarkup _ => .refusal
  | lostStartTag .. => .writing
  | overlappingTags _ => .writing
  | badSource fault => .reading .jsx fault.place?
  | overlappingAttributes _ => .writing
  | notWellFormed problem => .reading .xml (some (problem.line, problem.column))
  | unexpectedMarkup line column => .reading .xml (some (line, column))
  | missingElement => .missing
  | strained _ => .refusal

/-- The cause in words. -/
def message : Failure → String
  | badSelector _ selector cause offset =>
    "Invalid CSS selector " ++ Text.quoted selector ++ ": " ++ Selector.describe selector cause offset
  | unsupportedSelector what offset => what.message offset
  | refusedMarkup refusal => refusal.message
  | lostStartTag name line =>
    "Start tag of <" ++ name ++ "> not found at line " ++ toString line
  | overlappingTags start => "Overlapping start tag edits at " ++ toString start
  | badSource fault => fault.message
  | overlappingAttributes start => "Overlapping attribute edits at byte " ++ toString start
  | notWellFormed problem => "XML parsing error: " ++ problem.message
  | unexpectedMarkup line column =>
    "XML parsing error: unexpected markup at line " ++ toString line ++ ", column " ++ toString column
  | missingElement => "list index out of range"
  | strained strain => strain.message

def isExpected (f : Failure) : Bool :=
  match f.kind with
  | .reading .. | .writing => true
  | .refusal | .unsupported | .missing => false

def label (f : Failure) : String :=
  match f, f.kind with
  | strained strain, _ => strain.label
  | refusedMarkup refusal, _ => refusal.label
  | _, .reading .. => "ParseError"
  | _, .writing => "AttributeMutationError"
  | _, .refusal => "ParserRejectedMarkup"
  | _, .unsupported => "NotImplementedError"
  | _, .missing => "IndexError"

end Failure

structure Outcome where
  events : List Event := []
  result : Except Failure (List Char)

theorem Outcome.result_eq_ok_iff {outcome : Outcome} {text : List Char} :
    outcome.result = .ok text ↔ outcome.result.toOption = some text := by
  cases outcome.result with
  | error failure => simp [Except.toOption]
  | ok other => simp [Except.toOption]

end MarkupIds
