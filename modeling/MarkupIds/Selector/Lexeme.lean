import MarkupIds.Selector.Basic
import MarkupIds.Selector.Fault
import MarkupIds.Text.Cut
import MarkupIds.Text.Lower

/-! The smallest parts of a selector's text. -/

namespace MarkupIds.Selector

open MarkupIds.Text (after? cutAt isDigit isHexDigit)

/-- A part of a selector. -/
inductive Lexeme where
  | close
  | texts (test : TextTest)
  | nthChild (formula : Formula) (fromEnd : Bool) (amongFollows : Bool)
  | nthOfType (formula : Formula) (fromEnd : Bool)
  | lang (ranges : List String)
  | direction (rightToLeft : Bool)
  | custom (name : String)
  | pseudo (name : String) (opens : Bool)
  | pseudoElement
  | scope
  | atRule
  | id (value : String)
  | cls (value : String)
  | tag (nsPrefix : Option String) (name : String)
  | attribute (test : AttributeTest) (inverted : Bool)
  | combinator (symbol : Char)

def newline? : List Char → Option (List Char)
  | '\r' :: '\n' :: s => some s
  | c :: s => if c == '\n' || c == '\r' || c.toNat == 12 then some s else none
  | [] => none

def space? : List Char → Option (List Char)
  | ' ' :: s => some s
  | '\t' :: s => some s
  | s => newline? s

def comment? (s : List Char) : Option (List Char) :=
  (after? ['/', '*'] s).bind fun r => (cutAt ['*', '/'] r).map (·.2)

def filler? (s : List Char) : Option (List Char) := (space? s).orElse fun _ => comment? s

/-- `s` without up to `fuel` pieces recognised by `piece` at its start. -/
def skipBy (piece : List Char → Option (List Char)) : Nat → List Char → List Char
  | 0, s => s
  | fuel + 1, s =>
    match piece s with
    | some rest => skipBy piece fuel rest
    | none => s

def skipFiller (s : List Char) : List Char := skipBy filler? s.length s

/-- An escape: hexadecimal digits with one white space behind them, or any one character, or the end
of the text. -/
def escape? : List Char → Option (List Char)
  | '\\' :: s =>
    let digits := (s.takeWhile isHexDigit).take 6
    if digits.isEmpty then
      match s with
      | [] => some []
      | ['\n'] => some ['\n']
      | c :: rest => if (newline? (c :: rest)).isSome then none else some rest
    else
      let rest := s.drop digits.length
      some ((space? rest).getD rest)
  | _ => none

def isNameChar (c : Char) : Bool :=
  Text.isLetter c || isDigit c || c == '-' || c == '_' || c.toNat ≥ 0xA0

def isNameStart (c : Char) : Bool := Text.isLetter c || c == '_' || c.toNat ≥ 0xA0

def nameChar? (plain : Char → Bool) (s : List Char) : Option (List Char) :=
  match s with
  | '\\' :: _ => escape? s
  | c :: rest => if plain c then some rest else none
  | [] => none

def consumed (s rest : List Char) : List Char := s.take (s.length - rest.length)

/-- A name as it is written, and what follows it. -/
def name? (s : List Char) : Option (List Char × List Char) :=
  let start :=
    match s with
    | '-' :: '-' :: r => some r
    | '-' :: r => nameChar? isNameStart r
    | _ => nameChar? isNameStart s
  start.map fun r =>
    let rest := skipBy (nameChar? isNameChar) r.length r
    (consumed s rest, rest)

def escapedChar (n : Nat) : Char :=
  if n == 0 || !n.isValidChar then '\uFFFD' else Char.ofNat n

/-- The meaning of a text with escapes; in a string a line break behind a backslash vanishes. `fuel`
bounds the number of characters and escapes. -/
def unescapeFrom (inString : Bool) : Nat → List Char → List Char
  | 0, s => s
  | _, [] => []
  | fuel + 1, '\\' :: s =>
    let digits := (s.takeWhile isHexDigit).take 6
    if digits.isEmpty then
      match s, newline? s with
      | [], _ => ['\uFFFD']
      | _, some rest =>
        if inString then unescapeFrom inString fuel rest else '\\' :: unescapeFrom inString fuel s
      | c :: rest, none => c :: unescapeFrom inString fuel rest
    else
      let rest := s.drop digits.length
      escapedChar (Text.numberOf 16 digits) ::
        unescapeFrom inString fuel ((space? rest).getD rest)
  | fuel + 1, c :: s => c :: unescapeFrom inString fuel s

def unescape (s : List Char) : String := String.ofList (unescapeFrom false s.length s)

def unescapeString (s : List Char) : String := String.ofList (unescapeFrom true s.length s)

/-- The content of a string whose opening quote has been read, and what follows its closing quote.
A line break ends the string only where no backslash stands before it. -/
def stringBody? (quote : Char) : List Char → Option (List Char × List Char)
  | [] => none
  | '\\' :: '\r' :: '\n' :: s => (stringBody? quote s).map fun r => ('\\' :: '\r' :: '\n' :: r.1, r.2)
  | '\\' :: c :: s => (stringBody? quote s).map fun r => ('\\' :: c :: r.1, r.2)
  | c :: s =>
    if c == quote then some ([], s)
    else if c == '\\' || (newline? (c :: s)).isSome then none
    else (stringBody? quote s).map fun r => (c :: r.1, r.2)

def names? (s : List Char) : Option (List Char × List Char) :=
  (name? s).map fun r =>
    let rest := skipBy (fun t => (name? t).map (·.2)) r.2.length r.2
    (consumed s rest, rest)

def value? (s : List Char) : Option (String × List Char) :=
  match s with
  | '"' :: r => (stringBody? '"' r).map fun b => (unescapeString b.1, b.2)
  | '\'' :: r => (stringBody? '\'' r).map fun b => (unescapeString b.1, b.2)
  | _ => (names? s).map fun n => (unescape n.1, n.2)

/-- The values in a text, whatever stands between them. -/
def valuesIn : Nat → List Char → List String
  | 0, _ => []
  | _, [] => []
  | fuel + 1, c :: s =>
    match value? (c :: s) with
    | some (value, rest) => value :: valuesIn fuel rest
    | none => valuesIn fuel s

def comma? (s : List Char) : Option (List Char) := (after? [','] (skipFiller s)).map skipFiller

/-- Values with commas between them, as they are written, and what follows them. -/
def valueList? (s : List Char) : Option (List Char × List Char) :=
  (value? s).map fun first =>
    let rest :=
      skipBy (fun t => (comma? t).bind fun r => (value? r).map (·.2)) first.2.length first.2
    (consumed s rest, rest)

def close? (s : List Char) : Option (List Char) := after? [')'] (skipFiller s)

def sign? : List Char → Option (Bool × List Char)
  | '+' :: s => some (false, s)
  | '-' :: s => some (true, s)
  | _ => none

def signed (negative : Bool) (digits : List Char) : Int :=
  let n : Nat := if digits.isEmpty then 1 else Text.numberOf 10 digits
  if negative then -(n : Int) else n

/-- A formula that is written with a letter n or as a number. -/
def formula? (s : List Char) : Option (Formula × List Char) :=
  let (negative, r) := (sign? s).getD (false, s)
  let (digits, r) := r.span isDigit
  match r with
  | c :: rest =>
    if c == 'n' || c == 'N' then
      let step := signed negative digits
      let tail : Option (Int × List Char) :=
        (sign? (skipFiller rest)).bind fun (negative, r) =>
          let (digits, r) := (skipFiller r).span isDigit
          if digits.isEmpty then none else some (signed negative digits, r)
      match tail with
      | some (offset, r) => some (⟨some step, offset⟩, r)
      | none => some (⟨some step, 0⟩, rest)
    else if digits.isEmpty then none
    else some (⟨none, signed negative digits⟩, r)
  | [] => if digits.isEmpty then none else some (⟨none, signed negative digits⟩, [])

def word? (word : String) (s : List Char) : Option (List Char) :=
  let n := word.length
  if Text.asciiLower (String.ofList (s.take n)) == word then some (s.drop n) else none

def formulas (s : List Char) : List (Formula × List Char) :=
  [formula? s, (word? "even" s).map fun r => (⟨some 2, 0⟩, r),
   (word? "odd" s).map fun r => (⟨some 2, 1⟩, r)].filterMap id

/-- The word that introduces the selector of counted siblings: white space on both sides, the first
of it after comments alone. -/
def amongWord? (s : List Char) : Option (List Char) :=
  let gap (t : List Char) : Option (List Char) :=
    (space? (skipBy comment? t.length t)).map skipFiller
  (gap s).bind fun r => (word? "of" r).bind gap

def pseudoName? : List Char → Option (String × List Char)
  | ':' :: s => (name? s).map fun n => (":" ++ Text.asciiLower (unescape n.1), n.2)
  | _ => none

/-- A condition on the place among siblings. -/
def nth? (name : String) (s : List Char) : Option (Lexeme × List Char) :=
  let fromEnd := name == ":nth-last-child" || name == ":nth-last-of-type"
  (formulas s).findSome? fun (formula, r) =>
    if name == ":nth-child" || name == ":nth-last-child" then
      match close? r with
      | some rest => some (.nthChild formula fromEnd false, rest)
      | none => (amongWord? r).map fun rest => (.nthChild formula fromEnd true, rest)
    else (close? r).map fun rest => (.nthOfType formula fromEnd, rest)

/-- A condition whose argument is no selector, where `s` follows the opening bracket. -/
def argument? (name : String) (s : List Char) : Option (Lexeme × List Char) :=
  if [":contains", ":-soup-contains", ":-soup-contains-own"].contains name then
    (valueList? s).bind fun (raw, r) => (close? r).map fun rest =>
      let meant := (unescape raw).toList
      (.texts ⟨name == ":-soup-contains-own", valuesIn meant.length meant⟩, rest)
  else if [":nth-child", ":nth-last-child", ":nth-of-type", ":nth-last-of-type"].contains name then
    nth? name s
  else if name == ":lang" then
    (valueList? s).bind fun (raw, r) => (close? r).map fun rest =>
      (.lang (valuesIn raw.length raw), rest)
  else if name == ":dir" then
    match word? "ltr" s, word? "rtl" s with
    | some r, _ => (close? r).map (.direction false, ·)
    | none, some r => (close? r).map (.direction true, ·)
    | none, none => none
  else none

/-- What a colon starts. -/
def atColon? (s : List Char) : Option (Lexeme × List Char) :=
  match pseudoName? s with
  | some (name, r) =>
    let opened := (after? ['('] r).map skipFiller
    let special := opened.bind (argument? name)
    special.orElse fun _ =>
      if (after? [':', '-', '-'] s).isSome then some (.custom name, r)
      else some (.pseudo name opened.isSome, opened.getD r)
  | none =>
    match s with
    | ':' :: ':' :: r =>
      (name? r).map fun n =>
        (.pseudoElement, ((after? ['('] n.2).map skipFiller).getD n.2)
    | _ => none

def nsPrefix? (s : List Char) : Option (String × List Char) :=
  match s with
  | '*' :: r => (after? ['|'] r).map ("*", ·)
  | '|' :: r => some ("", r)
  | _ => (name? s).bind fun n => (after? ['|'] n.2).map (unescape n.1, ·)

def tagName? (s : List Char) : Option (String × List Char) :=
  match s with
  | '*' :: r => some ("*", r)
  | _ => (name? s).map fun n => (unescape n.1, n.2)

/-- An element's name, with or without a prefix. -/
def tag? (s : List Char) : Option (Lexeme × List Char) :=
  let plain := (tagName? s).map fun t => (Lexeme.tag none t.1, t.2)
  match nsPrefix? s with
  | some (ns, r) =>
    match tagName? r with
    | some (name, rest) => some (.tag (some ns) name, rest)
    | none => plain
  | none => plain

/-- The operator between an attribute's name and the wanted value. -/
def operator? : List Char → Option (Option ValueTest × List Char)
  | '=' :: s => some (some .equals, s)
  | '!' :: '=' :: s => some (none, s)
  | '~' :: '=' :: s => some (some .word, s)
  | '^' :: '=' :: s => some (some .startsWith, s)
  | '|' :: '=' :: s => some (some .dashed, s)
  | '*' :: '=' :: s => some (some .contains, s)
  | '$' :: '=' :: s => some (some .endsWith, s)
  | _ => none

def attributeEnd? (s : List Char) : Option (List Char) := after? [']'] (skipFiller s)

def caseFlag? (s : List Char) : Option (Bool × List Char) :=
  match skipFiller s with
  | c :: rest =>
    if c == 'i' || c == 'I' then some (true, rest)
    else if c == 's' || c == 'S' then some (false, rest)
    else none
  | [] => none

/-- The rest of an attribute's condition, after its name. -/
def attributeRest? (ns name : String) (s : List Char) : Option (Lexeme × List Char) :=
  let usual : CaseRule :=
    if Text.asciiLower name == "type" then .ignoredOutsideXml else .exact
  let test (op : Option ValueTest) (value : String) (rule : CaseRule) : Lexeme :=
    .attribute ⟨ns, name, some (op.getD .equals, value), rule⟩ op.isNone
  let valued : Option (Lexeme × List Char) :=
    (operator? (skipFiller s)).bind fun (op, r) => (value? (skipFiller r)).bind fun (value, r) =>
      let flagged := (caseFlag? r).bind fun (ignored, r) => (attributeEnd? r).map fun rest =>
        (test op value (if ignored then .ignored else .exact), rest)
      flagged.orElse fun _ => (attributeEnd? r).map fun rest => (test op value usual, rest)
  valued.orElse fun _ =>
    (attributeEnd? s).map fun rest => (.attribute ⟨ns, name, none, usual⟩ false, rest)

/-- A condition on an attribute, where `s` follows the opening bracket. -/
def attribute? (s : List Char) : Option (Lexeme × List Char) :=
  let s := skipFiller s
  let withPrefix := (nsPrefix? s).bind fun (ns, r) =>
    (name? r).bind fun n => attributeRest? ns (unescape n.1) n.2
  withPrefix.orElse fun _ => (name? s).bind fun n => attributeRest? "" (unescape n.1) n.2

/-- A combinator: its character with fillers around it, or white space that no such character
follows. -/
def combinator? : Nat → List Char → Option (Char × List Char)
  | 0, _ => none
  | fuel + 1, s =>
    let isSymbol (c : Char) : Bool := c == ',' || c == '+' || c == '>' || c == '~'
    match s with
    | [] => none
    | c :: r =>
      if isSymbol c then some (c, skipFiller r)
      else
        match space? s with
        | some r =>
          if (r.head?).any isSymbol then combinator? fuel r else some (' ', skipFiller r)
        | none => (comment? s).bind (combinator? fuel)

/-- The part that stands at the start of a text, and what follows it. -/
def lexeme? (s : List Char) : Option (Lexeme × List Char) :=
  let parts : List (Unit → Option (Lexeme × List Char)) :=
    [fun _ => (close? s).map (.close, ·),
     fun _ => atColon? s,
     fun _ => (after? ['&'] s).map (.scope, ·),
     fun _ => (word? "@p" s).bind fun r => (name? r).map fun n => (.atRule, n.2),
     fun _ => (after? ['#'] s).bind fun r => (name? r).map fun n => (.id (unescape n.1), n.2),
     fun _ => (after? ['.'] s).bind fun r => (name? r).map fun n => (.cls (unescape n.1), n.2),
     fun _ => tag? s,
     fun _ => (after? ['['] s).bind attribute?,
     fun _ => (combinator? (s.length + 1) s).map fun c => (.combinator c.1, c.2)]
  parts.findSome? (· ())

/-- The fault of a text at whose start no part stands. -/
def faultAt (offset : Nat) : List Char → Fault
  | '[' :: _ => .malformed .malformedAttribute offset
  | '.' :: _ => .malformed .malformedClass offset
  | '#' :: _ => .malformed .malformedId offset
  | ':' :: _ => .malformed .malformedPseudo offset
  | c :: _ => .malformed (.invalidCharacter c) offset
  | [] => .malformed .selectorExpected offset

/-- A part with the offsets at which it starts and ends. -/
structure Placed where
  lexeme : Lexeme
  start : Nat
  stop : Nat

/-- The parts of a selector in order, up to its end or to a fault. -/
structure Lexed where
  parts : List Placed
  fault : Option Fault

/-- The parts of `s`, which starts at `offset`, as long as they start before `stop`. -/
def lexFrom (stop : Nat) : Nat → Nat → List Char → Lexed
  | 0, _, _ => ⟨[], none⟩
  | fuel + 1, offset, s =>
    if offset ≥ stop then ⟨[], none⟩
    else
      match lexeme? s with
      | some (lexeme, rest) =>
        let next := offset + (s.length - rest.length)
        let others := lexFrom stop fuel next rest
        ⟨⟨lexeme, offset, next⟩ :: others.parts, others.fault⟩
      | none => ⟨[], some (faultAt offset s)⟩

def fillerStart (s : List Char) : Nat :=
  ((List.range s.length).find? fun n => (skipFiller (s.drop n)).isEmpty).getD s.length

def lex (s : List Char) : Lexed :=
  let rest := skipFiller s
  lexFrom (fillerStart s) (s.length + 1) (s.length - rest.length) rest

end MarkupIds.Selector
