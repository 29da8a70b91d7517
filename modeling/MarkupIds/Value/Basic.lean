import MarkupIds.Value.Binary64
import MarkupIds.Text.Quoted

/-! Values of options and of log fields: what a configuration file or a request can hold. As compact
JSON text, keys come in order of their code points, and nothing but the controls, the quote and the
backslash is escaped. -/

namespace MarkupIds

/-- A value of unknown shape. A moment (a date, with or without a time) is kept as its plain text
and as the text that stands for it inside a list. A garbled text holds half of a surrogate pair, so
that its characters cannot be told. -/
inductive Value where
  | null
  | flag (b : Bool)
  | int (n : Int)
  | real (x : Binary64)
  | text (s : String)
  | garbled
  | bytes (b : List UInt8)
  | moment (plain shown : String)
  | list (items : List Value)
  | pair (first second : Value)
  | set (items : List Value)
  | record (entries : List (Value × Value))

namespace Value

def joined (separator : String) (pieces : List String) : String := separator.intercalate pieces

/-- The text that stands for a value inside a list: texts are quoted. -/
def shown : Value → String
  | .null => "None"
  | .flag true => "True"
  | .flag false => "False"
  | .int n => toString n
  | .real x => x.toText
  | .text s => Text.quoted s
  | .garbled => "''"
  | .bytes b => "b" ++ Text.quotedBytes b
  | .moment _ shown => shown
  | .list items => "[" ++ joined ", " (shownAll items) ++ "]"
  | .pair a b => "(" ++ shown a ++ ", " ++ shown b ++ ")"
  | .set [] => "set()"
  | .set items => "\x7b" ++ joined ", " (shownAll items) ++ "\x7d"
  | .record entries => "\x7b" ++ joined ", " (shownEntries entries) ++ "\x7d"
where
  shownAll : List Value → List String
    | [] => []
    | v :: rest => shown v :: shownAll rest
  shownEntries : List (Value × Value) → List String
    | [] => []
    | (k, v) :: rest => (shown k ++ ": " ++ shown v) :: shownEntries rest

def plain : Value → String
  | .text s => s
  | .moment p _ => p
  | v => v.shown

def keyNumber? : Value → Option Int
  | .flag b => some (if b then 1 else 0)
  | .int n => some n
  | .real x => x.toInt?
  | _ => none

/-- Two keys name the same entry. -/
def sameKey (a b : Value) : Bool :=
  match a.keyNumber?, b.keyNumber? with
  | some m, some n => m == n
  | none, none =>
    match a, b with
    | .null, .null => true
    | .real x, .real y => x == y && x != .notNumber
    | .text s, .text t => s == t
    | .bytes s, .bytes t => s == t
    | .moment p _, .moment q _ => p == q
    | _, _ => false
  | _, _ => false

/-- Entries with one more: an entry of the same key keeps its place and takes the new value. -/
def putEntry (entries : List (Value × Value)) (key value : Value) : List (Value × Value) :=
  if entries.any (fun e => e.1.sameKey key) then
    entries.map fun e => if e.1.sameKey key then (e.1, value) else e
  else entries ++ [(key, value)]

def entry? (entries : List (Value × Value)) (name : String) : Option Value :=
  (entries.find? fun e => e.1.sameKey (.text name)).map (·.2)

/-- One character inside a JSON string. -/
def jsonChar (c : Char) : List Char :=
  if c == '"' || c == '\\' then ['\\', c]
  else if c == '\n' then ['\\', 'n']
  else if c == '\r' then ['\\', 'r']
  else if c == '\t' then ['\\', 't']
  else if c.toNat == 8 then ['\\', 'b']
  else if c.toNat == 12 then ['\\', 'f']
  else if c.toNat < 32 then '\\' :: 'u' :: Text.hexDigits 4 c.toNat
  else [c]

def jsonString (s : String) : String :=
  String.ofList ('"' :: (s.toList.flatMap jsonChar ++ ['"']))

def jsonReal : Binary64 → String
  | .notNumber => "NaN"
  | .infinite true => "-Infinity"
  | .infinite false => "Infinity"
  | x => x.toText

def insertByKey (e : String × String) : List (String × String) → List (String × String)
  | [] => [e]
  | f :: rest => if f.1 < e.1 then f :: insertByKey e rest else e :: f :: rest

def sortByKey (entries : List (String × String)) : List (String × String) :=
  entries.foldr insertByKey []

/-- A value as compact JSON text. -/
def json : Value → String
  | .null => "null"
  | .flag true => "true"
  | .flag false => "false"
  | .int n => toString n
  | .real x => jsonReal x
  | .text s => jsonString s
  | .garbled => jsonString ""
  | .bytes b => jsonString (Text.quotedBytes b)
  | .moment p _ => jsonString p
  | .list items => "[" ++ joined "," (jsonAll items) ++ "]"
  | .pair a b => "[" ++ joined "," [json a, json b] ++ "]"
  | .set items => "[" ++ joined "," (jsonAll items) ++ "]"
  | .record entries =>
    let sorted := (sortByKey (jsonEntries entries)).map fun e => jsonString e.1 ++ ":" ++ e.2
    "\x7b" ++ joined "," sorted ++ "\x7d"
where
  jsonAll : List Value → List String
    | [] => []
    | v :: rest => json v :: jsonAll rest
  jsonEntries : List (Value × Value) → List (String × String)
    | [] => []
    | (k, v) :: rest => (k.plain, json v) :: jsonEntries rest

end Value

end MarkupIds
