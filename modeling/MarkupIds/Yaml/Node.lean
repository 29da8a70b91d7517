import MarkupIds.Yaml.Kind
import MarkupIds.Yaml.Layout

/-! The tree of a configuration text: scalars and collections with their kinds, every alias replaced
by what it names. An alias inside the collection that it names stands for an empty one. -/

namespace MarkupIds.Yaml

inductive Node where
  | scalar (kind : Kind) (text : List Char) (isBroken : Bool)
  | items (kind : Kind) (nodes : List Node)
  | entries (kind : Kind) (fields : List (Node × Node))

namespace Node

def nothing : Node := .scalar .null [] false

/-- The state of a reading: the words left, the names of types by their handles, and the parts that
have been named. -/
structure State where
  tokens : List Token
  handles : List (List Char × List Char) := []
  anchors : List (List Char × Node) := []

abbrev Reading := StateT State (Except Fault)

def fail {α : Type} : Reading α := throw .malformed

def peek : Reading (Option Token) := do return (← get).tokens.head?

def skip : Reading Unit := modify fun s => { s with tokens := s.tokens.tail }

def nextIs (words : List Token) : Reading Bool := do
  match ← peek with
  | some t => return words.contains t
  | none => return false

def expect (t : Token) : Reading Unit := do
  if ← nextIs [t] then skip else fail

structure Properties where
  anchor : Option (List Char) := none
  type : Option TypeWord := none

/-- The properties that stand here. -/
def properties : Reading Properties := do
  match ← peek with
  | some (.anchor a) =>
    skip
    match ← peek with
    | some (.type t) => skip; return { anchor := some a, type := some t }
    | _ => return { anchor := some a }
  | some (.type t) =>
    skip
    match ← peek with
    | some (.anchor a) => skip; return { anchor := some a, type := some t }
    | _ => return { type := some t }
  | _ => return {}

/-- The full name of a type; a single exclamation mark, and no type, are none. -/
def typeName (t : Option TypeWord) : Reading (Option (List Char)) := do
  match t with
  | none => return none
  | some t =>
    let name ←
      match t.handle with
      | none => pure t.suffix
      | some handle =>
        match (← get).handles.find? fun h => h.1 == handle with
        | some (_, start) => pure (start ++ t.suffix)
        | none => fail
    return some name

/-- The kind of a collection or a left-out part whose type may be named. -/
def kindOr (default : Kind) (name : Option (List Char)) : Kind :=
  match name with
  | none => default
  | some name => if name == ['!'] then default else Kind.ofName name

def scalarKind (name : Option (List Char)) (text : List Char) (isPlain : Bool) : Kind :=
  match name with
  | none => if isPlain then Kind.ofPlain text else .text
  | some name => if name == ['!'] then Kind.ofPlain text else Kind.ofName name

def name (anchor : Option (List Char)) (node : Node) : Reading Unit := do
  match anchor with
  | none => return
  | some a => modify fun s => { s with anchors := (a, node) :: s.anchors }

def checkNew (anchor : Option (List Char)) : Reading Unit := do
  match anchor with
  | none => return
  | some a => if (← get).anchors.any fun n => n.1 == a then fail

def named (a : List Char) : Reading Node := do
  match (← get).anchors.find? fun n => n.1 == a with
  | some (_, node) => return node
  | none => fail

/-- Where a part may stand. -/
inductive Context where
  | flow
  | block
  | underKey
deriving DecidableEq, Repr

def itemEnds : List Token := [.dash, .key, .value, .blockClose]

def entryEnds : List Token := [.key, .value, .blockClose]

def leftOut (p : Properties) (type : Option (List Char)) : Reading Node := do
  if p.anchor.isNone && type.isNone then fail
  let node := Node.scalar (kindOr .null type) [] false
  name p.anchor node
  return node

/-- A list of parts. While it is read its name stands for an empty one. -/
def ofItems (p : Properties) (type : Option (List Char)) (nodes : Reading (List Node)) :
    Reading Node := do
  let kind := kindOr .items type
  name p.anchor (.items kind [])
  let node := Node.items kind (← nodes)
  name p.anchor node
  return node

/-- A list of entries. While it is read its name stands for an empty one. -/
def ofEntries (p : Properties) (type : Option (List Char)) (fields : Reading (List (Node × Node))) :
    Reading Node := do
  let kind := kindOr .entries type
  name p.anchor (.entries kind [])
  let node := Node.entries kind (← fields)
  name p.anchor node
  return node

def orNothing (ends : List Token) (part : Reading Node) : Reading Node := do
  if ← nextIs ends then return nothing else part

/-- A part after a colon, or nothing without one or before one of the words `ends`. -/
def afterColon (ends : List Token) (part : Reading Node) : Reading Node := do
  if ← nextIs [.value] then
    skip
    orNothing ends part
  else return nothing

/-- The next item or entry inside brackets follows, which a comma separates from one before it; or
the closing bracket does, which is passed over. -/
def goesOn (close : Token) (isFirst : Bool) : Reading Bool := do
  if !isFirst && !(← nextIs [close]) then expect .comma
  if ← nextIs [close] then
    skip
    return false
  else return true

mutual

/-- The part that stands here. -/
def read (context : Context) : Nat → Reading Node
  | 0 => fail
  | fuel + 1 => do
    if let some (.alias a) ← peek then
      skip
      return ← named a
    let p ← properties
    let type ← typeName p.type
    checkNew p.anchor
    match ← peek with
    | some (.scalar text isPlain isBroken) =>
      skip
      let node := Node.scalar (scalarKind type text isPlain) text isBroken
      name p.anchor node
      return node
    | some (.flowOpen .items) => skip; ofItems p type (flowItems true fuel)
    | some (.flowOpen .entries) => skip; ofEntries p type (flowEntries true fuel)
    | some (.blockOpen .items) =>
      if context == .flow then leftOut p type
      else
        skip
        ofItems p type (blockItems fuel)
    | some (.blockOpen .entries) =>
      if context == .flow then leftOut p type
      else
        skip
        ofEntries p type (blockEntries fuel)
    | some .dash =>
      if context == .underKey then ofItems p type (looseItems fuel) else leftOut p type
    | _ => leftOut p type

/-- The items of a block, up to its end. -/
def blockItems : Nat → Reading (List Node)
  | 0 => fail
  | fuel + 1 => do
    if ← nextIs [.dash] then
      skip
      let item ← orNothing [.dash, .blockClose] (read .block fuel)
      return item :: (← blockItems fuel)
    else
      expect .blockClose
      return []

/-- The items that stand under a key without a block of their own. -/
def looseItems : Nat → Reading (List Node)
  | 0 => fail
  | fuel + 1 => do
    if ← nextIs [.dash] then
      skip
      let item ← orNothing itemEnds (read .block fuel)
      return item :: (← looseItems fuel)
    else return []

/-- The entries of a block, up to its end. -/
def blockEntries : Nat → Reading (List (Node × Node))
  | 0 => fail
  | fuel + 1 => do
    if ← nextIs [.key] then
      skip
      let key ← orNothing entryEnds (read .underKey fuel)
      let value ← afterColon entryEnds (read .underKey fuel)
      return (key, value) :: (← blockEntries fuel)
    else
      expect .blockClose
      return []

/-- The items in brackets, up to the closing one. An item with a colon is a collection of one
entry. -/
def flowItems (isFirst : Bool) : Nat → Reading (List Node)
  | 0 => fail
  | fuel + 1 => do
    let close := Token.flowClose .items
    if !(← goesOn close isFirst) then return []
    if ← nextIs [.key] then
      skip
      let key ← orNothing [.value, .comma, close] (read .flow fuel)
      let value ← afterColon [.comma, close] (read .flow fuel)
      return .entries .entries [(key, value)] :: (← flowItems false fuel)
    else
      let item ← read .flow fuel
      return item :: (← flowItems false fuel)

/-- The entries in braces, up to the closing one. -/
def flowEntries (isFirst : Bool) : Nat → Reading (List (Node × Node))
  | 0 => fail
  | fuel + 1 => do
    let close := Token.flowClose .entries
    if !(← goesOn close isFirst) then return []
    if ← nextIs [.key] then
      skip
      let key ← orNothing [.value, .comma, close] (read .flow fuel)
      let value ← afterColon [.comma, close] (read .flow fuel)
      return (key, value) :: (← flowEntries false fuel)
    else
      let key ← read .flow fuel
      return (key, nothing) :: (← flowEntries false fuel)

end

/-- The directives in front of a document, and its mark. -/
def directives (hasVersion : Bool) : Nat → Reading Unit
  | 0 => fail
  | fuel + 1 => do
    match ← peek with
    | some (.directive d) =>
      skip
      match d with
      | .version major =>
        if hasVersion || major != 1 then fail
        directives true fuel
      | .handle handle start =>
        if (← get).handles.any fun h => h.1 == handle then fail
        modify fun s => { s with handles := (handle, start) :: s.handles }
        directives hasVersion fuel
      | .other => directives hasVersion fuel
    | _ => expect .documentStart

def commonHandles : List (List Char × List Char) := [(['!'], ['!']), (['!', '!'], Kind.commonStart)]

def skipEnds : Nat → Reading Unit
  | 0 => fail
  | fuel + 1 => do
    if ← nextIs [.documentEnd] then
      skip
      skipEnds fuel

def startsMarked : Token → Bool
  | .directive _ | .documentStart => true
  | _ => false

/-- The only document of a text; none if the text has no document. -/
def document (fuel : Nat) : Reading (Option Node) := do
  match ← peek with
  | none => return none
  | some t =>
    if startsMarked t then directives false fuel
    modify fun s => { s with handles := s.handles ++ commonHandles }
    let node ←
      match ← peek with
      | none => pure nothing
      | some next =>
        if startsMarked t && (startsMarked next || next == .documentEnd) then pure nothing
        else read .block fuel
    skipEnds fuel
    if (← peek).isSome then fail
    return some node

def parse? (text : List Char) : Except Fault (Option Node) := do
  let tokens ← Token.list text
  let (node, _) ← (document (2 * tokens.length + 2)).run { tokens }
  return node

end Node

end MarkupIds.Yaml
