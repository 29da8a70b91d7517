import MarkupIds.Text.Cut

/-! Values of input fields that lie in an order: dates, times and numbers. -/

namespace MarkupIds.Selector

open MarkupIds.Text (after? isDigit numberOf)

/-- A value with an order: the parts of a date or time from the largest on, or a decimal number with
`places` digits behind the point. -/
inductive Quantity where
  | parts (values : List Nat)
  | decimal (mantissa : Int) (places : Nat)

namespace Quantity

/-- Which of two lists of numbers comes first. -/
def partsBefore : List Nat → List Nat → Bool
  | a :: as, b :: bs => a < b || (a == b && partsBefore as bs)
  | [], _ :: _ => true
  | _, [] => false

/-- Which of two values of one kind comes first. -/
def before : Quantity → Quantity → Bool
  | parts a, parts b => partsBefore a b
  | decimal a m, decimal b n => a * Int.pow 10 n < b * Int.pow 10 m
  | _, _ => false

/-- Exactly `count` digits, or at least `count` if `more`. -/
def digits? (count : Nat) (more : Bool) (s : List Char) : Option (Nat × List Char) :=
  let run := s.takeWhile isDigit
  let run := if more then run else run.take count
  if run.length < count then none else some (numberOf 10 run, s.drop run.length)

def atEnd (s : List Char) : Bool := s.isEmpty || s == ['\n']

def year? (s : List Char) : Option (Nat × List Char) :=
  (digits? 4 true s).bind fun (year, r) =>
    if year == 0 then none else (after? ['-'] r).map (year, ·)

def month? (s : List Char) : Option (Nat × List Char) :=
  (digits? 2 false s).bind fun (month, r) =>
    if 1 ≤ month && month ≤ 12 then some (month, r) else none

def isLeap (year : Nat) : Bool := (year % 4 == 0 && year % 100 != 0) || year % 400 == 0

def daysOf (year month : Nat) : Nat :=
  if month == 2 then (if isLeap year then 29 else 28)
  else if month == 4 || month == 6 || month == 9 || month == 11 then 30
  else 31

def date? (s : List Char) : Option (List Nat × List Char) :=
  (year? s).bind fun (year, r) => (month? r).bind fun (month, r) => (after? ['-'] r).bind fun r =>
    (digits? 2 false r).bind fun (day, r) =>
      if 1 ≤ day && day ≤ daysOf year month then some ([year, month, day], r) else none

def time? (s : List Char) : Option (List Nat × List Char) :=
  (digits? 2 false s).bind fun (hour, r) => (after? [':'] r).bind fun r =>
    (digits? 2 false r).bind fun (minute, r) =>
      if hour ≤ 23 && minute ≤ 59 then some ([hour, minute], r) else none

def lastWeekday (year : Nat) : Nat := (year + year / 4 - year / 100 + year / 400 + 6) % 7

/-- The highest number of a week in a year. A year whose last day lies in the first week of the next
one counts as one of 53 weeks. -/
def weeksOf (year : Nat) : Nat :=
  let last := lastWeekday year
  if last < 3 then 53
  else if last == 3 || (last == 4 && isLeap year) then 53
  else 52

def week? (s : List Char) : Option (List Nat × List Char) :=
  (year? s).bind fun (year, r) => (after? ['W'] r).bind fun r =>
    (digits? 2 false r).bind fun (week, r) =>
      if 1 ≤ week && week ≤ weeksOf year then some ([year, week], r) else none

/-- A decimal number. -/
def decimal? (s : List Char) : Option (Quantity × List Char) :=
  let (negative, r) := match s with
    | '-' :: r => (true, r)
    | _ => (false, s)
  let (whole, r) := r.span isDigit
  let (fraction, rest) := match r with
    | '.' :: t =>
      let (fraction, rest) := t.span isDigit
      if fraction.isEmpty then ([], r) else (fraction, rest)
    | _ => ([], r)
  if whole.isEmpty && fraction.isEmpty then none
  else
    let n : Int := numberOf 10 (whole ++ fraction)
    some (decimal (if negative then -n else n) fraction.length, rest)

/-- The value of a field of a given type. -/
def read? (type : String) (s : List Char) : Option Quantity :=
  let whole (r : Option (List Nat × List Char)) : Option Quantity :=
    r.bind fun (values, rest) => if atEnd rest then some (parts values) else none
  if type == "date" then whole (date? s)
  else if type == "month" then
    whole ((year? s).bind fun (year, r) => (month? r).map fun (month, r) => ([year, month], r))
  else if type == "week" then whole (week? s)
  else if type == "time" then whole (time? s)
  else if type == "datetime-local" then
    whole ((date? s).bind fun (date, r) => (after? ['T'] r).bind fun r =>
      (time? r).map fun (time, r) => (date ++ time, r))
  else if type == "number" || type == "range" then
    (decimal? s).bind fun (value, rest) => if atEnd rest then some value else none
  else none

/-- A value lies outside its bounds. Times of day go round: a lower bound above the upper one leaves
out what lies between them. -/
def outside (type : String) (low high : Option Quantity) (value : Quantity) : Bool :=
  let below := low.any value.before
  let above := high.any (·.before value)
  let reversed :=
    match low, high with
    | some l, some h => type == "time" && h.before l
    | _, _ => false
  if reversed then below && above else below || above

end Quantity

end MarkupIds.Selector
