import MarkupIds.Text.Quoted

/-! Why a configuration text has no value. -/

namespace MarkupIds.Yaml

/-- What is wrong with a date or a time of day. -/
inductive MomentFault where
  | year (n : Nat)
  | month
  | day
  | hour
  | minute
  | second
  | offset (days : Int) (seconds : Nat)
deriving DecidableEq, Repr

/-- What is wrong with a text. -/
inductive Fault where
  | malformed
  | noSuchChar
  | notFlag (word : List Char)
  | emptyNumber
  | notWhole (base : Nat) (digits : List Char)
  | notFraction (text : List Char)
  | notMoment
  | badMoment (fault : MomentFault)
deriving DecidableEq, Repr

def durationShown (days : Int) (seconds : Nat) : String :=
  let parts :=
    (if days == 0 then [] else ["days=" ++ toString days]) ++
      (if seconds == 0 then [] else ["seconds=" ++ toString seconds])
  "datetime.timedelta(" ++ (if parts.isEmpty then "0" else ", ".intercalate parts) ++ ")"

namespace MomentFault

def message : MomentFault → String
  | year n => "year " ++ toString n ++ " is out of range"
  | month => "month must be in 1..12"
  | day => "day is out of range for month"
  | hour => "hour must be in 0..23"
  | minute => "minute must be in 0..59"
  | second => "second must be in 0..59"
  | offset days seconds =>
    "offset must be a timedelta strictly between -timedelta(hours=24) and timedelta(hours=24), not "
      ++ durationShown days seconds ++ "."

end MomentFault

namespace Fault

/-- The fault in words. -/
def message : Fault → String
  | malformed => "malformed"
  | noSuchChar => "chr() arg not in range(0x110000)"
  | notFlag word => Text.quoted (String.ofList word)
  | emptyNumber => "string index out of range"
  | notWhole base digits =>
    "invalid literal for int() with base " ++ toString base ++ ": " ++
      Text.quoted (String.ofList digits)
  | notFraction text => "could not convert string to float: " ++ Text.quoted (String.ofList text)
  | notMoment => "'NoneType' object has no attribute 'groupdict'"
  | badMoment fault => fault.message

def isExpected : Fault → Bool
  | notFlag _ | emptyNumber | notMoment => false
  | _ => true

end Fault

end MarkupIds.Yaml
