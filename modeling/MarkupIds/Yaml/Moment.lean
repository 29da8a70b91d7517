import MarkupIds.Text.Cut
import MarkupIds.Yaml.Fault
import MarkupIds.Value.Basic

/-! Dates, alone or with a time of day and its distance from the reference time. -/

namespace MarkupIds.Yaml

structure TimeOfDay where
  hour : Nat
  minute : Nat
  second : Nat
  micro : Nat := 0
  ahead : Option Int := none
deriving DecidableEq, Repr

/-- A date, with or without a time of day. -/
structure Moment where
  year : Nat
  month : Nat
  day : Nat
  time : Option TimeOfDay := none
deriving DecidableEq, Repr

namespace Moment

def number? (least most : Nat) (s : List Char) : Option (Nat × List Char) :=
  let digits := (s.take most).takeWhile Text.isDigit
  if least ≤ digits.length then some (Text.numberOf 10 digits, s.drop digits.length) else none

def past? (c : Char) (s : List Char) : Option (List Char) := Text.after? [c] s

def isSpacing (c : Char) : Bool := c == ' ' || c == '\t'

/-- The distance from the reference time that ends a text, if one is given. -/
def ahead? (s : List Char) : Option (Option Int) :=
  let z := s.dropWhile isSpacing
  match z with
  | [] => if s.isEmpty then some none else none
  | ['Z'] => some (some 0)
  | sign :: rest => do
    if sign != '+' && sign != '-' then none
    let (hours, rest) ← number? 1 2 rest
    let (minutes, rest) ←
      match past? ':' rest with
      | some rest => number? 2 2 rest
      | none => some (0, rest)
    if !rest.isEmpty then none
    let total : Int := hours * 60 + minutes
    some (some (if sign == '-' then -total else total))

def time? (s : List Char) : Option TimeOfDay := do
  let (hour, s) ← number? 1 2 s
  let (minute, s) ← number? 2 2 (← past? ':' s)
  let (second, s) ← number? 2 2 (← past? ':' s)
  let fraction := ((past? '.' s).map fun rest => rest.takeWhile Text.isDigit).getD []
  let s := ((past? '.' s).map fun rest => rest.dropWhile Text.isDigit).getD s
  let micro := Text.numberOf 10 ((fraction ++ List.replicate 6 '0').take 6)
  some { hour, minute, second, micro, ahead := ← ahead? s }

/-- The date, with or without a time, that a text spells. -/
def parse? (s : List Char) : Option Moment := do
  let (year, s) ← number? 4 4 s
  let (month, s) ← number? 1 2 (← past? '-' s)
  let (day, s) ← number? 1 2 (← past? '-' s)
  match s with
  | [] => some { year, month, day }
  | c :: rest =>
    if c == 'T' || c == 't' then some { year, month, day, time := ← time? rest }
    else if isSpacing c then some { year, month, day, time := ← time? (rest.dropWhile isSpacing) }
    else none

def daysIn (year month : Nat) : Nat :=
  let isLeap := year % 4 == 0 && (year % 100 != 0 || year % 400 == 0)
  if month == 2 then if isLeap then 29 else 28
  else if [4, 6, 9, 11].contains month then 30
  else 31

/-- The first thing that is wrong with a moment. -/
def fault? (m : Moment) : Option MomentFault :=
  let ahead := (m.time.bind (·.ahead)).getD 0
  if ahead.natAbs ≥ 24 * 60 then
    some (.offset (Int.fdiv ahead 1440) ((Int.fmod ahead 1440).toNat * 60))
  else if m.year == 0 then some (.year m.year)
  else if m.month == 0 || m.month > 12 then some .month
  else if m.day == 0 || m.day > daysIn m.year m.month then some .day
  else
    match m.time with
    | none => none
    | some t =>
      if t.hour > 23 then some .hour
      else if t.minute > 59 then some .minute
      else if t.second > 59 then some .second
      else none

def padded (width n : Nat) : String :=
  let digits := toString n
  String.ofList (List.replicate (width - digits.length) '0') ++ digits

/-- The moment as a text: date, time, and distance from the reference time. -/
def plain (m : Moment) : String :=
  let date := padded 4 m.year ++ "-" ++ padded 2 m.month ++ "-" ++ padded 2 m.day
  match m.time with
  | none => date
  | some t =>
    let micro := if t.micro == 0 then "" else "." ++ padded 6 t.micro
    let ahead :=
      match t.ahead with
      | none => ""
      | some n =>
        (if n < 0 then "-" else "+") ++ padded 2 (n.natAbs / 60) ++ ":" ++ padded 2 (n.natAbs % 60)
    date ++ " " ++ padded 2 t.hour ++ ":" ++ padded 2 t.minute ++ ":" ++ padded 2 t.second ++ micro
      ++ ahead

/-- The moment as it is shown inside a list: the numbers it is made of, without zeros at the end. -/
def shown (m : Moment) : String :=
  let date := [m.year, m.month, m.day].map fun n => toString n
  match m.time with
  | none => "datetime.date(" ++ Value.joined ", " date ++ ")"
  | some t =>
    let tail :=
      if t.micro != 0 then [t.second, t.micro] else if t.second != 0 then [t.second] else []
    let time := ([t.hour, t.minute] ++ tail).map fun n => toString n
    let zone :=
      match t.ahead with
      | none => []
      | some 0 => ["tzinfo=datetime.timezone.utc"]
      | some n =>
        let duration := durationShown (Int.fdiv n 1440) ((Int.fmod n 1440).toNat * 60)
        ["tzinfo=datetime.timezone(" ++ duration ++ ")"]
    "datetime.datetime(" ++ Value.joined ", " (date ++ time ++ zone) ++ ")"

def value (m : Moment) : Value := .moment m.plain m.shown

end Moment

end MarkupIds.Yaml
