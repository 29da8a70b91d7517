import MarkupIds.Text.Blank
import MarkupIds.Text.Cut
import MarkupIds.Text.Lower
import MarkupIds.Value.Binary64
import MarkupIds.Yaml.Fault

/-! Numbers and bytes that are spelled by a scalar. Strokes between digits are dropped, a whole number
may be given in base two, eight, ten or sixteen, and colons separate parts of sixty. -/

namespace MarkupIds.Yaml

def withoutStrokes (s : List Char) : List Char := s.filter (· != '_')

def splitSign : List Char → Bool × List Char
  | '-' :: s => (true, s)
  | '+' :: s => (false, s)
  | s => (false, s)

def isDigitIn (base : Nat) (c : Char) : Bool := Text.isHexDigit c && Text.hexValue c < base

/-- What follows the letter that a base may be announced with after a zero. -/
def withoutBase (base : Nat) (s : List Char) : List Char :=
  match s with
  | '0' :: c :: rest =>
    let letter := if base == 2 then 'b' else if base == 8 then 'o' else 'x'
    if base != 10 && (c == letter || c == letter.toUpper) then rest else s
  | _ => s

/-- The whole number that digits in a base stand for, with a sign and white space around it. -/
def wholeIn (base : Nat) (s : List Char) : Except Fault Int :=
  let (negative, body) := splitSign (Text.trim s)
  let digits := withoutBase base body
  if !digits.isEmpty && digits.all (isDigitIn base) then
    let n : Int := Text.numberOf base digits
    .ok (if negative then -n else n)
  else .error (.notWhole base s)

def sixtieths (parts : List Int) : Int := parts.foldl (fun n part => n * 60 + part) 0

/-- The whole number that an unsigned text stands for. -/
def unsignedWhole (s : List Char) : Except Fault Int :=
  match s with
  | [] => .error .emptyNumber
  | ['0'] => .ok 0
  | '0' :: 'b' :: digits => wholeIn 2 digits
  | '0' :: 'x' :: digits => wholeIn 16 digits
  | '0' :: _ => wholeIn 8 s
  | _ =>
    if s.contains ':' then do
      return sixtieths (← (Text.splitWhere (· == ':') s).mapM (wholeIn 10))
    else wholeIn 10 s

def wholeOf (s : List Char) : Except Fault Int := do
  let s := withoutStrokes s
  if s.isEmpty then .error .emptyNumber
  let (negative, body) := splitSign s
  let n ← unsignedWhole body
  return if negative then -n else n

/-- The digits and the power of ten of an unsigned decimal, with or without point and exponent. -/
def decimal? (s : List Char) : Option (Nat × Int) :=
  let whole := s.takeWhile Text.isDigit
  let rest := s.drop whole.length
  let fraction := ((Text.after? ['.'] rest).map (·.takeWhile Text.isDigit)).getD []
  let rest := ((Text.after? ['.'] rest).map (·.dropWhile Text.isDigit)).getD rest
  if whole.isEmpty && fraction.isEmpty then none
  else
    let digits := Text.numberOf 10 (whole ++ fraction)
    match rest with
    | [] => some (digits, -(fraction.length : Int))
    | e :: rest =>
      let (negative, exponent) := splitSign rest
      if e == 'e' && !exponent.isEmpty && exponent.all Text.isDigit then
        let n : Int := Text.numberOf 10 exponent
        some (digits, (if negative then -n else n) - fraction.length)
      else none

def negated : Binary64 → Binary64
  | .finite negative m e => .finite (!negative) m e
  | .infinite negative => .infinite (!negative)
  | .notNumber => .notNumber

/-- The number that a decimal or a word for a value beyond stands for. -/
def realIn (s : List Char) : Except Fault Binary64 :=
  let (negative, body) := splitSign (Text.trim s)
  if ["inf", "infinity"].any (fun w => w.toList == body) then .ok (.infinite negative)
  else if body == ['n', 'a', 'n'] then .ok .notNumber
  else
    match decimal? body with
    | some (digits, e) => .ok (.ofDecimal negative digits e)
    | none => .error (.notFraction s)

/-- The number that parts of sixty stand for. -/
def realOfParts (parts : List (List Char)) : Except Fault Binary64 := do
  let values : List (Nat × Int) ← parts.mapM fun part =>
    match decimal? (Text.trim part) with
    | some d => .ok d
    | none => .error (.notFraction part)
  let scale : Nat := values.foldl (fun scale v => max scale (-v.2).toNat) 0
  let total : Nat := values.foldl
    (fun total v => total * 60 + v.1 * Nat.pow 10 ((scale : Int) + v.2).toNat) 0
  return .ofFraction false total (Nat.pow 10 scale)

/-- The number that a text stands for. -/
def realOf (s : List Char) : Except Fault Binary64 := do
  let s := Text.lower (withoutStrokes s)
  if s.isEmpty then .error .emptyNumber
  let (negative, body) := splitSign s
  let x ←
    if body == ['.', 'i', 'n', 'f'] then .ok (.infinite false)
    else if body == ['.', 'n', 'a', 'n'] then .ok .notNumber
    else if body.contains ':' then realOfParts (Text.splitWhere (· == ':') body)
    else realIn body
  return if negative then negated x else x

def flagOf (s : List Char) : Except Fault Bool :=
  let word := Text.lower s
  if ["yes", "true", "on"].any fun w => w.toList == word then .ok true
  else if ["no", "false", "off"].any fun w => w.toList == word then .ok false
  else .error (.notFlag word)

def sixBits? (c : Char) : Option Nat :=
  if 'A' ≤ c && c ≤ 'Z' then some (c.toNat - 'A'.toNat)
  else if 'a' ≤ c && c ≤ 'z' then some (c.toNat - 'a'.toNat + 26)
  else if Text.isDigit c then some (c.toNat - '0'.toNat + 52)
  else if c == '+' then some 62
  else if c == '/' then some 63
  else none

/-- The bytes that letters of six bits each stand for, where `held` are the letters of an unfinished
group and `pads` counts the equals signs at its end. Other characters do not count; after a finished
group of equals signs nothing does. -/
def bytesFrom (held : List Nat) (pads : Nat) : List Char → Except Fault (List UInt8)
  | [] => if held.isEmpty then .ok [] else .error .malformed
  | c :: rest =>
    if c == '=' then
      if held.length ≥ 2 && held.length + pads + 1 ≥ 4 then
        let n := held.foldl (fun n b => n * 64 + b) 0
        .ok (if held.length == 2 then [UInt8.ofNat (n / 16)]
          else [UInt8.ofNat (n / 1024), UInt8.ofNat (n / 4)])
      else bytesFrom held (pads + 1) rest
    else
      match sixBits? c with
      | none => bytesFrom held pads rest
      | some b =>
        if held.length == 3 then do
          let n := (held ++ [b]).foldl (fun n b => n * 64 + b) 0
          let bytes ← bytesFrom [] 0 rest
          return UInt8.ofNat (n / 65536) :: UInt8.ofNat (n / 256) :: UInt8.ofNat n :: bytes
        else bytesFrom (held ++ [b]) 0 rest

def bytesOf (s : List Char) : Except Fault (List UInt8) :=
  if s.all fun c => c.toNat < 128 then bytesFrom [] 0 s else .error .malformed

end MarkupIds.Yaml
