import MarkupIds.Yaml.Scalar
import MarkupIds.Text.Utf8

/-! The words of a configuration text: the marks that structure it, the names and types given to its
parts, and its scalars. -/

namespace MarkupIds.Yaml

inductive Shape where
  | items
  | entries
deriving DecidableEq, Repr

/-- A type as it is written: after a handle that stands for the start of its name, or in full. -/
structure TypeWord where
  handle : Option (List Char)
  suffix : List Char
deriving DecidableEq, Repr

inductive Directive where
  | version (major : Nat)
  | handle (name start : List Char)
  | other
deriving DecidableEq, Repr

/-- A word of a configuration text. -/
inductive Token where
  | directive (d : Directive)
  | documentStart
  | documentEnd
  | blockOpen (shape : Shape)
  | blockClose
  | flowOpen (shape : Shape)
  | flowClose (shape : Shape)
  | dash
  | comma
  | key
  | value
  | alias (name : List Char)
  | anchor (name : List Char)
  | type (word : TypeWord)
  | scalar (text : List Char) (isPlain isBroken : Bool)
deriving DecidableEq, Repr

def isTypeChar (c : Char) : Bool :=
  Text.isLetter c || Text.isDigit c || "-;/?:@&=+$,_.!~*'()[]%".toList.contains c

/-- The bytes written as percent escapes at the start of a text, and what follows them. -/
def percentBytes : List Char → Except Fault (List UInt8 × List Char)
  | '%' :: a :: b :: rest =>
    if Text.isHexDigit a && Text.isHexDigit b then do
      let (bytes, rest) ← percentBytes rest
      return (UInt8.ofNat (Text.numberOf 16 [a, b]) :: bytes, rest)
    else .error .malformed
  | '%' :: _ => .error .malformed
  | rest => .ok ([], rest)

def percentText (s : List Char) : Except Fault (List Char × Nat) := do
  let (bytes, _) ← percentBytes s
  match Text.decode bytes with
  | .ok text => return (text, 3 * bytes.length)
  | .error _ => .error .malformed

/-- The name of a type from here on and how many characters it takes; `skip` characters belong to
escapes that have been read. -/
def typeNameFrom (skip : Nat) : List Char → Except Fault (List Char × Nat)
  | [] => .ok ([], 0)
  | c :: rest =>
    match skip with
    | skip + 1 => do
      let (name, count) ← typeNameFrom skip rest
      return (name, count + 1)
    | 0 =>
      if c == '%' then do
        let (text, count) ← percentText (c :: rest)
        let (name, more) ← typeNameFrom (count - 1) rest
        return (text ++ name, more + 1)
      else if isTypeChar c then do
        let (name, more) ← typeNameFrom 0 rest
        return (c :: name, more + 1)
      else .ok ([], 0)

def typeName (c : Cursor) : Except Fault (List Char × Cursor) := do
  let (name, count) ← typeNameFrom 0 c.rest
  if count == 0 then .error .malformed else return (name, c.skip count)

/-- The handle that stands here: an exclamation mark, or two with a name between them. -/
def typeHandle (c : Cursor) : Except Fault (List Char × Cursor) :=
  match c.rest with
  | '!' :: rest =>
    if rest.head? == some ' ' then .ok (['!'], c.next)
    else
      let name := rest.takeWhile isNameChar
      if (rest.drop name.length).head? == some '!' then
        .ok ('!' :: name ++ ['!'], c.skip (name.length + 2))
      else .error .malformed
  | _ => .error .malformed

/-- The type that stands here. -/
def typeWord (c : Cursor) : Except Fault (TypeWord × Cursor) := do
  let rest := c.rest.drop 1
  let (word, c) ←
    if rest.head? == some '<' then do
      let (name, c) ← typeName (c.skip 2)
      if c.rest.head? == some '>' then .ok (⟨none, name⟩, c.next) else .error .malformed
    else if wordEnds rest then .ok (⟨none, ['!']⟩, c.next)
    else if (rest.takeWhile fun x => !(x == ' ' || isBreak x)).contains '!' then do
      let (handle, c) ← typeHandle c
      let (name, c) ← typeName c
      .ok ((⟨some handle, name⟩ : TypeWord), c)
    else do
      let (name, c) ← typeName c.next
      .ok (⟨some ['!'], name⟩, c)
  if spacedOff c.rest then return (word, c) else .error .malformed

def anchorName (c : Cursor) : Except Fault (List Char × Cursor) :=
  let c := c.next
  let name := c.run isNameChar
  let c := c.skip name.length
  let mayFollow (x : Char) : Bool := isGap x || isBreak x || "?:,]\x7d%@`".toList.contains x
  if !name.isEmpty && endsOr mayFollow c.rest then .ok (name, c) else .error .malformed

def digits? (c : Cursor) : Except Fault (Nat × Cursor) :=
  let digits := c.run Text.isDigit
  if digits.isEmpty then .error .malformed
  else .ok (Text.numberOf 10 digits, c.skip digits.length)

/-- What follows the name of a directive. -/
def directiveValue (name : List Char) (c : Cursor) : Except Fault (Directive × Cursor) := do
  let spaces := Cursor.skipWhile (· == ' ')
  if name == ['Y', 'A', 'M', 'L'] then
    let (major, c) ← digits? (spaces c)
    if c.rest.head? != some '.' then .error .malformed
    let (_, c) ← digits? c.next
    if spacedOff c.rest then return (.version major, c) else .error .malformed
  else if name == ['T', 'A', 'G'] then
    let (handle, c) ← typeHandle (spaces c)
    if c.rest.head? != some ' ' then .error .malformed
    let (start, c) ← typeName (spaces c)
    if spacedOff c.rest then return (.handle handle start, c) else .error .malformed
  else return (.other, c.skipWhile fun x => !isBreak x)

def directive (c : Cursor) : Except Fault (Directive × Cursor) := do
  let c := c.next
  let name := c.run isNameChar
  let c := c.skip name.length
  if name.isEmpty || !spacedOff c.rest then .error .malformed
  let (d, c) ← directiveValue name c
  match c.emptyLine? with
  | some c => return (d, c)
  | none => .error .malformed

end MarkupIds.Yaml
