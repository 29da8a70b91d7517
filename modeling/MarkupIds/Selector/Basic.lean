/-! Selectors: which elements of a document are meant. -/

namespace MarkupIds.Selector

/-- How the element on the left of a combinator stands to the one on the right. -/
inductive Combinator where
  | descendant
  | child
  | sibling
  | adjacent
deriving DecidableEq, Repr

namespace Combinator

def symbol : Combinator → Char
  | .descendant => ' '
  | .child => '>'
  | .sibling => '~'
  | .adjacent => '+'

def ofSymbol? : Char → Option Combinator
  | ' ' => some .descendant
  | '>' => some .child
  | '~' => some .sibling
  | '+' => some .adjacent
  | _ => none

end Combinator

inductive ValueTest where
  | startsWith
  | endsWith
  | contains
  | word
  | dashed
  | equals
deriving DecidableEq, Repr

inductive CaseRule where
  | exact
  | ignored
  | ignoredOutsideXml
deriving DecidableEq, Repr

/-- A condition on an attribute: that it is there, or also what its value is like. -/
structure AttributeTest where
  nsPrefix : String
  name : String
  value : Option (ValueTest × String)
  caseRule : CaseRule
deriving Repr

/-- Conditions that have a name of their own and no argument. -/
inductive Named where
  | root
  | scope
  | empty
  | defined
  | link
  | checked
  | default
  | indeterminate
  | disabled
  | enabled
  | required
  | optional
  | readOnly
  | readWrite
  | inRange
  | outOfRange
  | placeholderShown
  | opened
  | muted
deriving DecidableEq, Repr

namespace Named

def words : List (String × Named) :=
  [(":root", root), (":scope", scope), (":empty", empty), (":defined", defined), (":link", link),
   (":any-link", link), (":checked", checked), (":default", default),
   (":indeterminate", indeterminate), (":disabled", disabled), (":enabled", enabled),
   (":required", required), (":optional", optional), (":read-only", readOnly),
   (":read-write", readWrite), (":in-range", inRange), (":out-of-range", outOfRange),
   (":placeholder-shown", placeholderShown), (":open", opened), (":muted", muted)]

end Named

/-- A count among siblings: `step * n + offset` for some `n`, or `offset` alone. -/
structure Formula where
  step : Option Int
  offset : Int
deriving DecidableEq, Repr

namespace Formula

def admits (f : Formula) (k : Nat) : Bool :=
  match f.step with
  | none => f.offset == k
  | some a =>
    let d := (k : Int) - f.offset
    if a == 0 then d == 0 else d % a == 0 && d / a ≥ 0

end Formula

structure TextTest where
  own : Bool
  wanted : List String
deriving Repr

mutual

/-- One condition on an element. -/
inductive Condition where
  | tag (nsPrefix : Option String) (name : String)
  | id (value : String)
  | cls (value : String)
  | attribute (test : AttributeTest)
  | named (which : Named)
  | nth (formula : Formula) (fromEnd : Bool) (ofType : Bool) (among : Option Choice)
  | lang (ranges : List String)
  | direction (rightToLeft : Bool)
  | choice (list : Choice)

/-- What is asked of one element: all conditions, all text tests, and, where there is a relation,
another element that stands to this one as the relation says; `ahead` tells that it is looked for
among the elements that follow or lie inside. A compound may also be one that nothing meets. -/
inductive Compound where
  | never
  | all (conditions : List Condition) (texts : List TextTest) (relation : Option Relation)

inductive Relation where
  | mk (ahead : Bool) (combinator : Combinator) (other : Compound)

/-- Alternatives, of which one has to be met, or none if `negated`. Alternatives that make sense for
HTML alone are never met elsewhere. -/
inductive Choice where
  | mk (negated : Bool) (htmlOnly : Bool) (alternatives : List Compound)

end

end MarkupIds.Selector
