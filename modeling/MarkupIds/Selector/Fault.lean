import MarkupIds.Text.Quoted

/-! What is wrong with a selector, and where. -/

namespace MarkupIds.Selector

/-- What is wrong. -/
inductive Cause where
  | malformedAttribute
  | malformedClass
  | malformedId
  | malformedPseudo
  | invalidCharacter (c : Char)
  | selectorExpected
  | unmatchedClose
  | unclosed
  | misplacedTag
  | danglingCombinator (c : Char)
  | multipleCombinators
  | invalidPseudoUse (name : String)
  | unknownPseudo (name : String)
  | undefinedCustom (name : String)
deriving DecidableEq, Repr

inductive Unsupported where
  | pseudoElement
  | atRule
deriving DecidableEq, Repr

inductive Fault where
  | malformed (cause : Cause) (offset : Nat)
  | unsupported (what : Unsupported) (offset : Nat)
deriving DecidableEq, Repr

namespace Cause

/-- The cause in words. -/
def message (offset : Nat) : Cause → String
  | .malformedAttribute => "Malformed attribute selector at position " ++ toString offset
  | .malformedClass => "Malformed class selector at position " ++ toString offset
  | .malformedId => "Malformed id selector at position " ++ toString offset
  | .malformedPseudo => "Malformed pseudo-class selector at position " ++ toString offset
  | .invalidCharacter c =>
    "Invalid character " ++ Text.quoted (String.singleton c) ++ " position " ++ toString offset
  | .selectorExpected => "Expected a selector at position " ++ toString offset
  | .unmatchedClose => "Unmatched pseudo-class close at position " ++ toString offset
  | .unclosed => "Unclosed pseudo-class at position " ++ toString offset
  | .misplacedTag =>
    "Tag name found at position " ++ toString offset ++ " instead of at the start"
  | .danglingCombinator c =>
    "The combinator '" ++ String.singleton c ++ "' at position " ++ toString offset ++
      ", must have a selector before it"
  | .multipleCombinators => "The multiple combinators at position " ++ toString offset
  | .invalidPseudoUse name => "Invalid syntax for pseudo class '" ++ name ++ "'"
  | .unknownPseudo name =>
    "'" ++ name ++ "' was detected as a pseudo-class and is either unsupported or invalid. " ++
      "If the syntax was not intended to be recognized as a pseudo-class, please escape the colon."
  | .undefinedCustom name =>
    "Undefined custom selector '" ++ name ++ "' found at position " ++ toString offset

end Cause

def Unsupported.message (offset : Nat) : Unsupported → String
  | .pseudoElement => "Pseudo-element found at position " ++ toString offset
  | .atRule => "At-rules found at position " ++ toString offset

/-- A line of a selector: its text, where it starts, where its text ends and where the next line
starts. -/
structure Line where
  text : List Char
  start : Nat
  stop : Nat
  next : Nat

def linesFrom (start : Nat) (text : List Char) : List Char → List Line
  | [] => [⟨text.reverse, start, start + text.length, start + text.length⟩]
  | '\r' :: '\n' :: s =>
    let stop := start + text.length
    ⟨text.reverse, start, stop, stop + 2⟩ :: linesFrom (stop + 2) [] s
  | c :: s =>
    if c == '\n' || c == '\r' then
      let stop := start + text.length
      ⟨text.reverse, start, stop, stop + 1⟩ :: linesFrom (stop + 1) [] s
    else linesFrom start (c :: text) s

/-- The place of an offset and the lines that show it: a lone line is followed by a caret, among
several the line is marked and followed by a caret. -/
structure Context where
  text : String
  line : Nat
  column : Nat

def Line.shown (offset : Nat) (l : Line) : String :=
  if l.start ≤ offset && offset < l.next then
    let column := offset - l.start + 1
    let shift := if offset > l.stop then 2 else 3
    "--> " ++ String.ofList l.text ++ "\n" ++ String.ofList (List.replicate (column + shift) ' ') ++
      "^"
  else "    " ++ String.ofList l.text

/-- The context of an offset in a selector. -/
def contextAt (pattern : List Char) (offset : Nat) : Context :=
  match linesFrom 0 [] pattern with
  | [l] =>
    ⟨String.ofList l.text ++ "\n" ++ String.ofList (List.replicate offset ' ') ++ "^", 1, offset + 1⟩
  | lines =>
    let text := "\n".intercalate (lines.map (Line.shown offset))
    match lines.findIdx? fun l => l.start ≤ offset && offset < l.next with
    | some n =>
      ⟨text, n + 1, offset - ((lines[n]?).map Line.start).getD 0 + 1⟩
    | none => ⟨text, 1, 1⟩

def pattern (selector : String) : List Char :=
  selector.toList.map fun c => if c.toNat == 0 then '\uFFFD' else c

def describe (selector : String) (cause : Cause) (offset : Nat) : String :=
  let context := contextAt (pattern selector) offset
  cause.message offset ++ "\n  line " ++ toString context.line ++ ":\n" ++ context.text

end MarkupIds.Selector
