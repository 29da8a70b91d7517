import MarkupIds.Html.NamedCharacters
import MarkupIds.Text.Cut

/-! Character references, in attribute values and in text. The two differ: a value knows names that
lack their semicolon, while a reference in text has its end found first. -/

namespace MarkupIds.Html

def namedText? (name : List Char) : Option (List Char) :=
  (namedCharacters.lookup (String.ofList name)).map String.toList

/-- The characters that the bytes 0x80 to 0x9F mean in the usual Western encoding; a byte without a
meaning stands for itself. -/
def westernControls : List Nat :=
  [0x20AC, 0x81, 0x201A, 0x192, 0x201E, 0x2026, 0x2020, 0x2021, 0x2C6, 0x2030, 0x160, 0x2039, 0x152,
   0x8D, 0x17D, 0x8F, 0x90, 0x2018, 0x2019, 0x201C, 0x201D, 0x2022, 0x2013, 0x2014, 0x2DC, 0x2122,
   0x161, 0x203A, 0x153, 0x9D, 0x17E, 0x178]

def westernOf (n : Nat) : Nat :=
  if 0x80 ≤ n && n ≤ 0x9F then westernControls.getD (n - 0x80) n else n

def charOf (n : Nat) : Char := if n.isValidChar then Char.ofNat n else '\uFFFD'

def isUnassignable (n : Nat) : Bool :=
  (1 ≤ n && n ≤ 8) || (0xB ≤ n && n ≤ 0x1F && n != 0xC && n != 0xD) || (0x7F ≤ n && n ≤ 0x9F) ||
    (0xFDD0 ≤ n && n ≤ 0xFDEF) || n % 0x10000 == 0xFFFE || n % 0x10000 == 0xFFFF

def valueOfNumber (n : Nat) : List Char :=
  if n == 0 then ['\uFFFD']
  else if n == 0xD then ['\r']
  else if 0x80 ≤ n && n ≤ 0x9F then [charOf (westernOf n)]
  else if n > 0x10FFFF || !n.isValidChar then ['\uFFFD']
  else if isUnassignable n then []
  else [charOf n]

def isReferenceChar (c : Char) : Bool :=
  !(c == '\t' || c == '\n' || c.toNat == 12 || c == ' ' || c == '<' || c == '&' || c == '#' ||
    c == ';')

/-- The text of a named reference in an attribute value: the name itself is known, or else its
longest start of two characters or more that is. -/
def valueOfName (name : List Char) : List Char :=
  let known (size : Nat) : Option (List Char) :=
    (namedText? (name.take size)).map (· ++ name.drop size)
  let sizes := name.length :: (List.range' 2 (name.length - 2)).reverse
  (sizes.findSome? known).getD ('&' :: name)

/-- A reference in an attribute value, where `s` is what follows the ampersand: the text that it
stands for and what follows it. -/
def valueReference? (s : List Char) : Option (List Char × List Char) :=
  let closed (rest : List Char) : List Char := (Text.after? [';'] rest).getD rest
  match s with
  | '#' :: 'x' :: r | '#' :: 'X' :: r =>
    let digits := r.takeWhile Text.isHexDigit
    if digits.isEmpty then none
    else some (valueOfNumber (Text.numberOf 16 digits), closed (r.drop digits.length))
  | '#' :: r =>
    let digits := r.takeWhile Text.isDigit
    if digits.isEmpty then none
    else some (valueOfNumber (Text.numberOf 10 digits), closed (r.drop digits.length))
  | _ =>
    let name := (s.takeWhile isReferenceChar).take 32
    if name.isEmpty then none
    else
      match s.drop name.length with
      | ';' :: rest => some (valueOfName (name ++ [';']), rest)
      | rest => some (valueOfName name, rest)

/-- `fuel` bounds the number of characters and references read. -/
def expandFrom : Nat → List Char → List Char
  | 0, s => s
  | _, [] => []
  | fuel + 1, '&' :: s =>
    match valueReference? s with
    | some (text, rest) => text ++ expandFrom fuel rest
    | none => '&' :: expandFrom fuel s
  | fuel + 1, c :: s => c :: expandFrom fuel s

def expand (s : List Char) : List Char := expandFrom s.length s

/-- The number of digits of the first decimal reference in a value that has too many of them. -/
def overlong? : List Char → Option Nat
  | [] => none
  | '&' :: '#' :: s =>
    let count := (s.takeWhile Text.isDigit).length
    if Text.digitLimit < count then some count else overlong? s
  | _ :: s => overlong? s

def textOfNumber (n : Nat) : List Char := [charOf (westernOf n)]

/-- The text of a named reference in text, with or without the semicolon; an unknown name is kept
behind its ampersand. -/
def textOfName (name : List Char) : List Char :=
  ((namedText? (name ++ [';'])).orElse fun _ => namedText? name).getD ('&' :: name)

def isTextNameChar (c : Char) : Bool := Text.isLetter c || Text.isDigit c || c == '-' || c == '.'

/-- The name of a reference in text: letters, digits, hyphens and points, such that neither a letter
nor a digit follows and something does. -/
def textName? (s : List Char) : Option (List Char) :=
  match s with
  | c :: _ =>
    if Text.isLetter c then
      let run := s.takeWhile isTextNameChar
      if run.length < s.length then some run
      else
        match run.reverse.dropWhile fun c => Text.isLetter c || Text.isDigit c with
        | [] => none
        | _ :: kept => some kept.reverse
    else none
  | [] => none

/-- The digits at the start of a text, such that no hexadecimal digit follows and something does. -/
def numeral? (skip base : Nat) (isOfBase : Char → Bool) (s : List Char) :
    Option (Nat × Nat × List Char) :=
  let digits := s.takeWhile isOfBase
  match s.drop digits.length with
  | c :: _ => if digits.isEmpty || Text.isHexDigit c then none else some (skip, base, digits)
  | [] => none

def textNumber? (s : List Char) : Option (Nat × Nat × List Char) :=
  match s with
  | 'x' :: r | 'X' :: r => numeral? 1 16 Text.isHexDigit r
  | r => numeral? 0 10 Text.isDigit r

end MarkupIds.Html
