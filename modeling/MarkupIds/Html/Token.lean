import MarkupIds.Html.Reference
import MarkupIds.Markup.Tree
import MarkupIds.Text.Lower
import MarkupIds.Text.Quoted

/-! Lenient HTML as a run of tokens. Each piece of the text is read as well as it can be: what fits
no construct is text, and only a few faulty marked sections are refused. -/

namespace MarkupIds.Html

open MarkupIds.Text (isBlank isLetter isDigit after? cutAt cutBy)

/-- A token of a document. -/
inductive Token where
  | opening (name : String) (attributes : List (String × String)) (closed : Bool)
  | closing (name : String)
  | text (content : List Char)
  | special (kind : Markup.TextKind) (content : List Char)
deriving DecidableEq, Repr

inductive Refusal where
  | sectionWithoutName (start : List Char)
  | unknownSection (name : List Char)
  | longNumber (digits : Nat)

namespace Refusal

def message (r : Refusal) : String :=
  let rejected (what : String) : String :=
    "The markup you provided was rejected by the parser. Trying a different parser or a different " ++
      "encoding may help.\n\nOriginal exception(s) from parser:\n AssertionError: " ++ what
  match r with
  | .sectionWithoutName start =>
    rejected ("expected name token at " ++ Text.quoted (String.ofList start))
  | .unknownSection name =>
    rejected ("unknown status keyword " ++ Text.quoted (String.ofList name) ++ " in marked section")
  | .longNumber digits => Text.tooManyDigits digits

def label : Refusal → String
  | .longNumber _ => "ValueError"
  | _ => "ParserRejectedMarkup"

end Refusal

/-- The outcome of reading one construct: tokens and the number of characters they took, or an end of
text within the construct, or a refusal. -/
inductive Reading where
  | read (tokens : List Token) (count : Nat)
  | unfinished
  | refused (r : Refusal)

def isNameChar (c : Char) : Bool :=
  !(c == '\t' || c == '\n' || c == '\r' || c.toNat == 12 || c == ' ' || c == '/' || c == '>' ||
    c.toNat == 0)

/-- The text after white space and slashes, where a slash before the closing bracket stays. -/
def skipGap : List Char → List Char
  | [] => []
  | c :: s =>
    if c == '/' && s.head? == some '>' then c :: s
    else if isBlank c || c == '/' then skipGap s
    else c :: s

def mayPrecedeName (c : Char) : Bool := isBlank c || c == '"' || c == '\'' || c == '/'

def bareValue (s : List Char) : List Char × List Char := s.span fun c => !(isBlank c || c == '>')

/-- The value where a quote is never closed: `signs` equals signs, then `blanks`, then `s` with the
quote. It is empty if there are blanks, and starts with the last sign if there are several. -/
def unclosedValue (signs : Nat) (blanks s : List Char) : Option (List Char × List Char) :=
  match blanks.reverse with
  | last :: _ => some ([], last :: s)
  | [] =>
    if signs ≥ 2 then
      let (value, rest) := bareValue s
      some ('=' :: value, rest)
    else none

def valueAfter (signs : Nat) (blanks s : List Char) : Option (List Char × List Char) :=
  match s with
  | '"' :: r => (cutAt ['"'] r).orElse fun _ => unclosedValue signs blanks s
  | '\'' :: r => (cutAt ['\''] r).orElse fun _ => unclosedValue signs blanks s
  | _ => some (bareValue s)

/-- The value of an attribute whose name has just been read, and what follows it. -/
def attributeValue? (s : List Char) : Option (List Char × List Char) :=
  match s.dropWhile isBlank with
  | '=' :: r =>
    let (signs, r) := ('=' :: r).span (· == '=')
    let (blanks, r) := r.span isBlank
    valueAfter signs.length blanks r
  | _ => none

def lastBefore (s rest : List Char) (default : Char) : Char :=
  ((s.take (s.length - rest.length)).getLast?).getD default

def isAttributeNameChar (c : Char) : Bool := !(isBlank c || c == '/' || c == '=' || c == '>')

def attributeAt (c : Char) (s : List Char) : (String × List Char) × List Char :=
  let (name, afterName) := s.span isAttributeNameChar
  let (value, rest) := (attributeValue? afterName).getD ([], afterName)
  ((String.ofList (Text.lower (c :: name)), value), rest)

/-- The attributes at the start of `s`, which follows the character `before`, and what comes after
them. `fuel` bounds their number. -/
def attributesFrom (fuel : Nat) (before : Char) (s : List Char) :
    List (String × List Char) × List Char :=
  match fuel, s with
  | 0, _ => ([], s)
  | _, [] => ([], s)
  | fuel + 1, c :: r =>
    if mayPrecedeName before && !(isBlank c || c == '/' || c == '>') then
      let (first, afterValue) := attributeAt c r
      let rest := skipGap afterValue
      let (others, rest') := attributesFrom fuel (lastBefore s rest before) rest
      (first :: others, rest')
    else ([], s)

/-- The tokens of a start tag whose attributes have been read, unless a value has a number in it that
cannot be read. -/
def expanded (written : List (String × List Char)) (tokens : List (String × String) → List Token)
    (count : Nat) : Reading :=
  match written.findSome? fun a => overlong? a.2 with
  | some digits => .refused (.longNumber digits)
  | none => .read (tokens (written.map fun a => (a.1, String.ofList (expand a.2)))) count

/-- A start tag, where `s` begins with its bracket. -/
def readOpening (s : List Char) : Reading :=
  let (name, afterName) := (s.drop 1).span isNameChar
  let gap := skipGap afterName
  let lowered := String.ofList (Text.lower name)
  let (written, rest) := attributesFrom s.length (lastBefore s gap '<') gap
  let count := s.length - rest.length
  match rest with
  | '>' :: _ => expanded written (fun attributes => [.opening lowered attributes false]) (count + 1)
  | '/' :: '>' :: _ => expanded written (fun attributes => [.opening lowered attributes true]) (count + 2)
  | [] => .unfinished
  | c :: _ =>
    if isLetter c || c == '=' || c == '/' then .unfinished
    else expanded written (fun _ => [.text (s.take count)]) count

def readSpecial (kind : Markup.TextKind) (skip : Nat) (close : List Char → Option (List Char))
    (s : List Char) : Reading :=
  match cutBy close (s.drop skip) with
  | some (content, rest) => .read [.special kind content] (s.length - rest.length)
  | none => .unfinished

/-- The name in an end tag that is written without anything else in it. -/
def plainClosing? (s : List Char) : Option (List Char × List Char) :=
  match (s.drop 2).dropWhile isBlank with
  | c :: r =>
    if isLetter c then
      let (name, rest) := r.span fun c =>
        isLetter c || isDigit c || c == '-' || c == '.' || c == ':' || c == '_'
      match rest.dropWhile isBlank with
      | '>' :: rest => some (c :: name, rest)
      | _ => none
    else none
  | [] => none

/-- An end tag. Whatever stands between its name and the bracket is passed over; without a name it is
a comment, or nothing at all. -/
def readClosing (s : List Char) : Reading :=
  match cutAt ['>'] (s.drop 1) with
  | none => .unfinished
  | some (_, afterBracket) =>
    let count := s.length - afterBracket.length
    match plainClosing? s with
    | some (name, _) => .read [.closing (String.ofList (Text.lower name))] count
    | none =>
      match s.drop 2 with
      | '>' :: _ => .read [] 3
      | c :: r =>
        if isLetter c then
          let name := c :: r.takeWhile isNameChar
          .read [.closing (String.ofList (Text.lower name))] count
        else readSpecial .comment 2 (after? ['>']) s
      | [] => .unfinished

def commentEnd (s : List Char) : Option (List Char) :=
  (after? ['-', '-'] s).bind fun r => after? ['>'] (r.dropWhile isBlank)

def shortSectionEnd (s : List Char) : Option (List Char) :=
  (after? [']'] s).bind fun r => after? ['>'] (r.dropWhile isBlank)

def sectionEnd (s : List Char) : Option (List Char) :=
  (after? [']'] s).bind fun r => shortSectionEnd (r.dropWhile isBlank)

/-- The name at the start of a marked section, with the white space behind it, if anything follows. -/
def sectionName? (body : List Char) : Option (List Char × List Char) :=
  let (name, rest) :=
    body.span fun c => isLetter c || isDigit c || c == '-' || c == '_' || c == '.'
  let (blanks, rest) := rest.span isBlank
  if rest.isEmpty then none else some (name, blanks)

structure SectionRule where
  kind : Markup.TextKind
  skip : Nat
  close : List Char → Option (List Char)

def sectionRule? (body name : List Char) : Option SectionRule :=
  let word := String.ofList (Text.lower name)
  if Text.asciiLower (String.ofList (body.take 6)) == "cdata[" then some ⟨.cdata, 9, sectionEnd⟩
  else if ["temp", "cdata", "ignore", "include", "rcdata"].contains word then
    some ⟨.declaration, 3, sectionEnd⟩
  else if ["if", "else", "endif"].contains word then some ⟨.declaration, 3, shortSectionEnd⟩
  else none

/-- A marked section. Its name decides how it ends. -/
def readSection (s : List Char) : Reading :=
  let body := s.drop 3
  match body with
  | [] => .unfinished
  | c :: _ =>
    if isLetter c then
      match sectionName? body with
      | none => .unfinished
      | some (name, blanks) =>
        match sectionRule? body name with
        | some rule => readSpecial rule.kind rule.skip rule.close s
        | none => .refused (.unknownSection (name ++ blanks))
    else .refused (.sectionWithoutName (s.take 20))

/-- A declaration: a marked section, a document type, or else a comment. -/
def readDeclaration (s : List Char) : Reading :=
  match after? ['<', '!', '['] s with
  | some _ => readSection s
  | none =>
    if Text.asciiLower (String.ofList (s.take 9)) == "<!doctype" then
      match cutAt ['>'] (s.drop 9) with
      | some (content, rest) =>
        .read [.special .doctype (content.drop 1)] (s.length - rest.length)
      | none => .unfinished
    else readSpecial .comment 2 (after? ['>']) s

/-- What an opening bracket starts, where `s` begins with the bracket. -/
def readMarkup (s : List Char) : Reading :=
  match s with
  | '<' :: '/' :: _ => readClosing s
  | '<' :: '!' :: '-' :: '-' :: _ => readSpecial .comment 4 commentEnd s
  | '<' :: '?' :: _ => readSpecial .instruction 2 (after? ['>']) s
  | '<' :: '!' :: _ => readDeclaration s
  | '<' :: c :: _ => if isLetter c then readOpening s else .read [.text ['<']] 1
  | _ => .unfinished

end MarkupIds.Html
