import MarkupIds.Grammar.Pattern
import MarkupIds.Text.Quoted

/-! Programs as they are read: the parts that matter for ids, each with its place in the text, or
what is wrong with a text that is no program. -/

namespace MarkupIds.Jsx

/-- What a part of a program is. -/
inductive Kind where
  | element
  | opening
  | name
  | typeArguments
  | attribute
  | attributeName
  | string
  | fragment
  | escape
  | expression
  | text
  | reference
  | comment
  | other
deriving DecidableEq, Repr

/-- What is wrong with a text that is no program. -/
inductive Fault where
  | unexpected (line column : Nat)
  | missing (what : String) (line column : Nat)
  | unplaced (what : String)
deriving DecidableEq, Repr

namespace Fault

def place? : Fault → Option (Nat × Nat)
  | unexpected line column => some (line, column)
  | missing _ line column => some (line, column)
  | unplaced _ => none

def message (f : Fault) : String :=
  let at_ (line column : Nat) : String := " at line " ++ toString line ++ ", column " ++ toString column
  "Parse error: " ++
    match f with
    | unexpected line column => "unexpected syntax" ++ at_ line column
    | missing what line column => "missing " ++ Text.quoted what ++ at_ line column
    | unplaced what => what

end Fault

abbrev Reader := List Char → Except Fault (List (Grammar.Tree Kind))

end MarkupIds.Jsx
