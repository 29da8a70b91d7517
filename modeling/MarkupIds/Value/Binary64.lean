/-! Numbers with a fraction: 53 binary digits, read from decimals to the nearest one and written
with the fewest decimal digits that read back. -/

namespace MarkupIds

/-- A binary number of 53 digits: `mantissa * 2 ^ exponent`, or one of the values beyond. -/
inductive Binary64 where
  | finite (negative : Bool) (mantissa : Nat) (exponent : Int)
  | infinite (negative : Bool)
  | notNumber
deriving DecidableEq, Repr

namespace Binary64

def nearest (num den : Nat) : Nat :=
  let q := num / den
  let r := num % den
  if 2 * r > den || (2 * r == den && q % 2 == 1) then q + 1 else q

def scaled (num den : Nat) (e : Int) : Nat × Nat :=
  if e ≥ 0 then (num, den * Nat.pow 2 e.toNat) else (num * Nat.pow 2 (-e).toNat, den)

/-- The exponent at which `num / den` has 53 binary digits before the point, but never less than
the least exponent. -/
def exponentFor (num den : Nat) : Int :=
  let guess : Int := (Nat.log2 num : Int) - Nat.log2 den - 52
  let fits (e : Int) : Bool :=
    let (n, d) := scaled num den e
    n / d < Nat.pow 2 53
  let e := if fits (guess - 1) then guess - 1 else if fits guess then guess else guess + 1
  max e (-1074)

/-- The value nearest to `num / den`. -/
def ofFraction (negative : Bool) (num den : Nat) : Binary64 :=
  if num == 0 then .finite negative 0 0
  else
    let e := exponentFor num den
    let (n, d) := scaled num den e
    let m := nearest n d
    let (m, e) := if m == Nat.pow 2 53 then (Nat.pow 2 52, e + 1) else (m, e)
    if e > 971 then .infinite negative else .finite negative m e

def ofDecimal (negative : Bool) (digits : Nat) (exponent : Int) : Binary64 :=
  if exponent ≥ 0 then
    if exponent > 400 && digits != 0 then .infinite negative
    else ofFraction negative (digits * Nat.pow 10 exponent.toNat) 1
  else if exponent < -2000 then .finite negative 0 0
  else ofFraction negative digits (Nat.pow 10 (-exponent).toNat)

def fraction (mantissa : Nat) (exponent : Int) : Nat × Nat :=
  if exponent ≥ 0 then (mantissa * Nat.pow 2 exponent.toNat, 1) else (mantissa, Nat.pow 2 (-exponent).toNat)

def decimalScale (num den : Nat) (k : Int) : Nat → Int
  | 0 => k
  | fuel + 1 =>
    let below := if k ≥ 0 then num < den * Nat.pow 10 k.toNat else num * Nat.pow 10 (-k).toNat < den
    if below then k else decimalScale num den (k + 1) fuel

def roundedTo (num den : Nat) (scale : Int) (count : Nat) : Nat × Int :=
  let e := scale - count
  (if e ≥ 0 then nearest num (den * Nat.pow 10 e.toNat) else nearest (num * Nat.pow 10 (-e).toNat) den, e)

/-- The fewest decimal digits that read back as a positive value, with their power of ten. -/
def shortest (mantissa : Nat) (exponent : Int) : Nat × Int :=
  let (num, den) := fraction mantissa exponent
  let guess : Int := ((Nat.log2 num : Int) - Nat.log2 den) * 30103 / 100000 - 1
  let scale := decimalScale num den guess 6
  let readsBack (count : Nat) : Bool :=
    let (digits, e) := roundedTo num den scale count
    ofDecimal false digits e == .finite false mantissa exponent
  roundedTo num den scale (((List.range' 1 17).find? readsBack).getD 17)

def withoutTrailingZeros (digits : List Char) (e : Int) : List Char × Int :=
  let kept := (digits.reverse.dropWhile (· == '0')).reverse
  (kept, e + (digits.length - kept.length : Nat))

/-- Decimal digits with a point: positional from 0.0001 up to sixteen digits before the point,
otherwise one digit before the point and a signed exponent of at least two digits. -/
def layout (digits : List Char) (e : Int) : List Char :=
  let (digits, e) := withoutTrailingZeros digits e
  let point := (digits.length : Int) + e
  if -4 < point && point ≤ 16 then
    if point ≤ 0 then '0' :: '.' :: (List.replicate (-point).toNat '0' ++ digits)
    else if e ≥ 0 then digits ++ List.replicate e.toNat '0' ++ ['.', '0']
    else digits.take point.toNat ++ '.' :: digits.drop point.toNat
  else
    let power := point - 1
    let head := if digits.length ≤ 1 then digits else digits.take 1 ++ '.' :: digits.drop 1
    let size := (toString power.natAbs).toList
    head ++ 'e' :: (if power < 0 then '-' else '+') ::
      (if size.length < 2 then '0' :: size else size)

def toText : Binary64 → String
  | .notNumber => "nan"
  | .infinite negative => if negative then "-inf" else "inf"
  | .finite negative mantissa exponent =>
    let body :=
      if mantissa == 0 then ['0', '.', '0']
      else
        let (digits, e) := shortest mantissa exponent
        layout (toString digits).toList e
    String.ofList (if negative then '-' :: body else body)

/-- The whole number that the value is, if it is one. -/
def toInt? : Binary64 → Option Int
  | .finite negative mantissa exponent =>
    let (num, den) := fraction mantissa exponent
    if num % den == 0 then
      some (if negative then -((num / den : Nat) : Int) else (num / den : Nat))
    else none
  | _ => none

end Binary64

end MarkupIds
