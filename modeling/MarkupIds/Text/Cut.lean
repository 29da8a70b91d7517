/-! Cutting a text at something that stands in it. -/

namespace MarkupIds.Text

/-- What follows `head`, if the text starts with it. -/
def after? (head s : List Char) : Option (List Char) :=
  if head.isPrefixOf s then some (s.drop head.length) else none

/-- What comes before the first place at which `close` recognises an end, and what follows that
end. -/
def cutBy (close : List Char → Option (List Char)) : List Char → Option (List Char × List Char)
  | [] => (close []).map fun rest => ([], rest)
  | c :: s =>
    match close (c :: s) with
    | some rest => some ([], rest)
    | none => (cutBy close s).map fun (before, rest) => (c :: before, rest)

/-- What comes before the first `mark`, and what follows it. -/
def cutAt (mark : List Char) (s : List Char) : Option (List Char × List Char) :=
  cutBy (after? mark) s

def isLetter (c : Char) : Bool := ('a' ≤ c && c ≤ 'z') || ('A' ≤ c && c ≤ 'Z')

def isDigit (c : Char) : Bool := '0' ≤ c && c ≤ '9'

def isHexDigit (c : Char) : Bool :=
  isDigit c || ('a' ≤ c && c ≤ 'f') || ('A' ≤ c && c ≤ 'F')

/-- The number that a hexadecimal digit stands for. -/
def hexValue (c : Char) : Nat :=
  if isDigit c then c.toNat - '0'.toNat
  else if 'a' ≤ c then c.toNat - 'a'.toNat + 10
  else c.toNat - 'A'.toNat + 10

def numberOf (base : Nat) (digits : List Char) : Nat :=
  digits.foldl (fun n c => n * base + hexValue c) 0

/-- The most digits that a decimal number may have to be read. -/
def digitLimit : Nat := 4300

def tooManyDigits (count : Nat) : String :=
  "Exceeds the limit (" ++ toString digitLimit ++ " digits) for integer string conversion: value has " ++
    toString count ++ " digits; use sys.set_int_max_str_digits() to increase the limit"

end MarkupIds.Text
