import MarkupIds.Yaml.Moment

/-! The kinds of values that a configuration text can hold, and the kind that a plain scalar shows by
its spelling. -/

namespace MarkupIds.Yaml

/-- A kind of values. -/
inductive Kind where
  | null
  | flag
  | int
  | real
  | bytes
  | moment
  | orderedPairs
  | pairs
  | set
  | text
  | items
  | entries
  | merge
  | whole
  | unknown
deriving DecidableEq, Repr

namespace Kind

def commonStart : List Char := "tag:yaml.org,2002:".toList

def names : List (String × Kind) :=
  [("null", null), ("bool", flag), ("int", int), ("float", real), ("binary", bytes),
   ("timestamp", moment), ("omap", orderedPairs), ("pairs", pairs), ("set", set), ("str", text),
   ("seq", items), ("map", entries), ("merge", merge), ("value", whole)]

def ofName (name : List Char) : Kind :=
  match Text.after? commonStart name with
  | some short =>
    ((names.find? fun n => n.1.toList == short).map (·.2)).getD unknown
  | none => unknown

end Kind

/-! ### The spelling of numbers and dates -/

def unsigned : List Char → List Char
  | '+' :: s => s
  | '-' :: s => s
  | s => s

def isDigitOrStroke (c : Char) : Bool := Text.isDigit c || c == '_'

/-- An exponent with a sign, or nothing. -/
def isExponent : List Char → Bool
  | [] => true
  | e :: sign :: digits =>
    (e == 'e' || e == 'E') && (sign == '+' || sign == '-') && !digits.isEmpty &&
      digits.all Text.isDigit
  | _ => false

def isSixtieth : List Char → Bool
  | [a] => Text.isDigit a
  | [a, b] => '0' ≤ a && a ≤ '5' && Text.isDigit b
  | _ => false

def colonPieces : List Char → List (List Char)
  | [] => [[]]
  | c :: rest =>
    match colonPieces rest with
    | [] => [[c]]
    | piece :: pieces => if c == ':' then [] :: piece :: pieces else (c :: piece) :: pieces

/-- A whole number: in base two, eight, ten or sixteen, or in parts of sixty with colons between. -/
def spellsInt (s : List Char) : Bool :=
  match unsigned s with
  | '0' :: 'b' :: rest => !rest.isEmpty && rest.all fun c => c == '0' || c == '1' || c == '_'
  | '0' :: 'x' :: rest => !rest.isEmpty && rest.all fun c => Text.isHexDigit c || c == '_'
  | '0' :: rest => rest.all fun c => ('0' ≤ c && c ≤ '7') || c == '_'
  | c :: rest =>
    Text.isDigit c &&
      match colonPieces rest with
      | [] => false
      | first :: pieces => first.all isDigitOrStroke && pieces.all isSixtieth
  | [] => false

/-- A fraction without a sign, written with a point. -/
def spellsPointed (s : List Char) : Bool :=
  let whole := s.takeWhile isDigitOrStroke
  match s.drop whole.length with
  | '.' :: rest =>
    let fraction := rest.takeWhile isDigitOrStroke
    isExponent (rest.drop fraction.length) &&
      match whole with
      | [] => fraction.head?.any Text.isDigit
      | c :: _ => Text.isDigit c
  | _ => false

/-- A fraction in parts of sixty with colons between. -/
def spellsSixtieths (s : List Char) : Bool :=
  match colonPieces (s.takeWhile (· != '.')), s.dropWhile (· != '.') with
  | (c :: first) :: piece :: pieces, '.' :: fraction =>
    Text.isDigit c && first.all isDigitOrStroke && (piece :: pieces).all isSixtieth &&
      fraction.all isDigitOrStroke
  | _, _ => false

/-- A number with a fraction, or one of the values beyond. -/
def spellsReal (s : List Char) : Bool :=
  let body := unsigned s
  [".inf", ".Inf", ".INF"].any (fun w => w.toList == body) ||
    [".nan", ".NaN", ".NAN"].any (fun w => w.toList == s) ||
    (spellsPointed body && (body.length == s.length || body.head? != some '.')) ||
    spellsSixtieths body

def spellsFlag (s : List Char) : Bool :=
  ["yes", "Yes", "YES", "no", "No", "NO", "true", "True", "TRUE", "false", "False", "FALSE", "on",
   "On", "ON", "off", "Off", "OFF"].any fun w => w.toList == s

def spellsNull (s : List Char) : Bool :=
  ["", "~", "null", "Null", "NULL"].any fun w => w.toList == s

/-- A date with two digits each for month and day, or a date with a time. -/
def spellsMoment (s : List Char) : Bool :=
  match Moment.parse? s with
  | some moment => moment.time.isSome || s.length == 10
  | none => false

/-- The kind that a plain scalar shows by its spelling. A line feed at its end does not count. -/
def Kind.ofPlain (s : List Char) : Kind :=
  let body := if s.length > 1 && s.getLast? == some '\n' then s.dropLast else s
  if spellsFlag body then .flag
  else if spellsReal body then .real
  else if spellsInt body then .int
  else if body == ['<', '<'] then .merge
  else if spellsNull body then .null
  else if spellsMoment body then .moment
  else if body == ['='] then .whole
  else .text

end MarkupIds.Yaml
