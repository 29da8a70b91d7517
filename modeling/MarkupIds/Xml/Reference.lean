import MarkupIds.Xml.Reading

/-! References to characters and entities, and the values of attributes, in which they may stand. -/

namespace MarkupIds.Xml

open MarkupIds.Text (isDigit isHexDigit hexValue)

/-- The entities that every document may refer to. -/
def plainEntity? (name : List Char) : Option Char :=
  if name == ['l', 't'] then some '<'
  else if name == ['g', 't'] then some '>'
  else if name == ['a', 'm', 'p'] then some '&'
  else if name == ['q', 'u', 'o', 't'] then some '"'
  else if name == ['a', 'p', 'o', 's'] then some '\''
  else none

namespace DocType

def entity? (d : DocType) (name : List Char) : Option Entity :=
  d.entities.find? fun e => e.name == name

def addEntity (d : DocType) (e : Entity) : DocType := { d with entities := d.entities ++ [e] }

def addParameter (d : DocType) (e : Entity) : DocType := { d with parameters := d.parameters ++ [e] }

def updateEntity (d : DocType) (name : List Char) (f : Entity → Entity) : DocType :=
  { d with entities := d.entities.map fun e => if e.name == name then f e else e }

/-- Every name has to be declared, because no declaration lies elsewhere. -/
def isComplete (d : DocType) : Bool :=
  d.standalone || !(d.hasExternalSubset || d.hasParameterReferences)

def undeclared (d : DocType) (name : List Char) : Cause :=
  if d.isComplete then .entityUndefined (String.ofList name)
  else .entityUnknownOutside (String.ofList name)

end DocType

namespace Reading

def report (cause : Cause) : Reading Unit :=
  if cause.severity == .fatal then fail cause else note cause

def expandingName {α : Type} (name : List Char) (reading : Reading α) : Reading α := do
  if (← get).expanding.contains name then fail .entityLoop
  modify fun s => { s with expanding := name :: s.expanding }
  let a ← reading
  modify fun s => { s with expanding := s.expanding.drop 1 }
  return a

def characterOf (inString : Bool) (code : Nat) : Reading Char := do
  if 0x110000 ≤ code then fail (.codeTooLarge inString)
  let c := Char.ofNat code
  if c.toNat == code && isXmlChar c then return c
  else fail (.codeInvalid inString code)

/-- The digits of a reference to a character, from what stands behind `&#` on. -/
def codeDigits : Reading Nat := do
  let isHex ← accept ['x']
  let digits ← takeWhile (if isHex then isHexDigit else isDigit)
  match ← peek with
  | some ';' => return Text.numberOf (if isHex then 16 else 10) digits
  | _ => fail (if isHex then .hexadecimalExpected else .decimalExpected)

def characterReference : Reading Char := do
  skip 2
  let code ← codeDigits
  skip 1
  characterOf false code

def entityReference : Reading (List Char) := do
  skip 1
  let name ← name
  if name.isEmpty then fail (.referenceWithoutName false)
  expect [';'] .referenceNotClosed
  return name

/-- The declaration of an entity that may stand at the place reached, if there is one. -/
def lookUp (inValue : Bool) (name : List Char) : Reading (Option Entity) := do
  let d ← docType
  match d.entity? name with
  | none =>
    report (d.undeclared name)
    return none
  | some e =>
    match e.meaning with
    | .inside _ => return some e
    | .unparsed => fail (.entityUnparsed (String.ofList name))
    | .outside =>
      if inValue then fail (.entityExternal (String.ofList name))
      return some e

/-- A reference within a text that has been read: a character or a name, and what follows it. -/
def referenceWithin (s : List Char) : Reading ((Char ⊕ List Char) × List Char) := do
  match s with
  | '#' :: r =>
    let (isHex, r) := match r with
      | 'x' :: r => (true, r)
      | _ => (false, r)
    let (digits, r) := r.span (if isHex then isHexDigit else isDigit)
    match r with
    | ';' :: r =>
      let c ← characterOf true (Text.numberOf (if isHex then 16 else 10) digits)
      return (.inl c, r)
    | _ => fail (if isHex then .hexadecimalExpected else .decimalExpected)
  | c :: _ =>
    if isNameStart c then
      match s.span isNameChar with
      | (name, ';' :: r) => return (.inr name, r)
      | _ => fail .referenceNotClosed
    else fail (.referenceWithoutName true)
  | [] => fail (.referenceWithoutName true)

def valueChar (c : Char) : Char := if isSpace c then ' ' else c

/-- The text of an entity as part of a value; `depth` bounds how deep entities bring in others, and
`fuel` the length of a text. -/
def entityValue (owner : List Char) : Nat → Nat → List Char → Reading (List Char)
  | 0, _, _ => fail .entityLoop
  | _, 0, _ => return []
  | _, _, [] => return []
  | depth + 1, fuel + 1, c :: s => do
    if c == '<' then fail (.entityWithMarkup (String.ofList owner))
    else if c == '&' then
      let (found, rest) ← referenceWithin s
      let value ← match found with
        | .inl c => pure [c]
        | .inr name =>
          match plainEntity? name with
          | some c => pure [c]
          | none =>
            match ← lookUp true name with
            | none => pure []
            | some e =>
              match e.meaning with
              | .inside text => expandingName name (entityValue name depth text.length.succ text)
              | _ => pure []
      return value ++ (← entityValue owner (depth + 1) fuel rest)
    else return valueChar c :: (← entityValue owner (depth + 1) fuel s)

/-- A reference in a value, from its `&` on. -/
def valueReference : Reading (List Char) := do
  match ← remaining with
  | '&' :: '#' :: _ => return [← characterReference]
  | _ =>
    let name ← entityReference
    match plainEntity? name with
    | some c => return [c]
    | none =>
      match ← lookUp true name with
      | none => return []
      | some e =>
        match e.meaning with
        | .inside text =>
          let depth := (← docType).entities.length.succ
          expandingName name (entityValue name depth text.length.succ text)
        | _ => return []

/-- The rest of a value, up to its closing quote. -/
def valueEnd (quote : Char) : Nat → Reading (List Char)
  | 0 => fail .valueNotFinished
  | fuel + 1 => do
    match ← peek with
    | none => fail .valueNotFinished
    | some c =>
      if c == quote then
        skip 1
        return []
      else if c == '<' then fail .valueWithBracket
      else if c == '&' then
        let value ← valueReference
        return value ++ (← valueEnd quote fuel)
      else if isXmlChar c then
        skip 1
        return valueChar c :: (← valueEnd quote fuel)
      else fail .valueChar

/-- The value of an attribute, in its quotes. -/
def value : Reading (List Char) := do
  match ← peek with
  | some quote =>
    if quote == '"' || quote == '\'' then
      skip 1
      valueEnd quote (← remaining).length.succ
    else fail .valueNotStarted
  | none => fail .valueNotStarted

end Reading

def tokens (s : List Char) : List Char :=
  [' '].intercalate ((s.splitOn ' ').filter fun piece => !piece.isEmpty)

end MarkupIds.Xml
