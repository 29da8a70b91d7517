import MarkupIds.Markup.Tree
import MarkupIds.Xml.Chars
import MarkupIds.Xml.Problem
import MarkupIds.Text.Cut

/-! Reading a document from front to back: what is left of the text, the place reached, the problems
met so far, and what the document type has declared. A reading fails with the first problem that was
met, which need not be the one that ends it. -/

namespace MarkupIds.Xml

open MarkupIds.Markup (Tag TextKind)

/-- What a document is made of, in its order. A reference stands for itself, whatever it would bring
in. -/
inductive Piece where
  | opening (tag : Tag)
  | closing
  | text (kind : TextKind) (content : List Char)
  | reference

/-- What an entity stands for. -/
inductive Meaning where
  | inside (text : List Char)
  | outside
  | unparsed

/-- A declared entity. -/
structure Entity where
  name : List Char
  meaning : Meaning
  isRead : Bool := false

/-- A declared attribute. -/
structure AttributeRule where
  element : List Char
  name : List Char
  isId : Bool := false
  isTokens : Bool := false
  default : Option (List Char) := none

/-- What the document type has declared, and what else decides whether a name may be undeclared. -/
structure DocType where
  standalone : Bool := false
  hasExternalSubset : Bool := false
  hasParameterReferences : Bool := false
  entities : List Entity := []
  parameters : List Entity := []
  rules : List AttributeRule := []
  elements : List (List Char) := []
  notations : List (List Char) := []

/-- The state of a reading. -/
structure State where
  rest : List Char
  line : Nat := 1
  column : Nat := 1
  shownAt : Option (Nat × Nat) := none
  problems : List Problem := []
  docType : DocType := {}
  ids : List (List Char) := []
  expanding : List (List Char) := []

abbrev Reading := StateT State (Except Problem)

namespace State

def problem (s : State) (cause : Cause) : Problem :=
  match s.shownAt with
  | some (line, column) => ⟨cause, line, column⟩
  | none => ⟨cause, s.line, s.column⟩

def step (s : State) (c : Char) (rest : List Char) : State :=
  if c == '\n' then { s with rest, line := s.line + 1, column := 1 }
  else { s with rest, column := s.column + 1 }

/-- The state after the next `count` characters. -/
def advance (s : State) : Nat → State
  | 0 => s
  | count + 1 =>
    match s.rest with
    | [] => s
    | c :: rest => (s.step c rest).advance count

end State

namespace Reading

def fail {α : Type} (cause : Cause) : Reading α := fun s =>
  .error (s.problems.getLastD (s.problem cause))

def note (cause : Cause) : Reading Unit := fun s =>
  .ok ((), { s with problems := s.problem cause :: s.problems })

def remaining : Reading (List Char) := fun s => .ok (s.rest, s)

def peek : Reading (Option Char) := fun s => .ok (s.rest.head?, s)

def sees (mark : List Char) : Reading Bool := fun s => .ok (mark.isPrefixOf s.rest, s)

def skip (count : Nat) : Reading Unit := fun s => .ok ((), s.advance count)

def accept (mark : List Char) : Reading Bool := fun s =>
  if mark.isPrefixOf s.rest then .ok (true, s.advance mark.length) else .ok (false, s)

def expect (mark : List Char) (cause : Cause) : Reading Unit := do
  unless ← accept mark do fail cause

/-- The characters up to the first one that does not satisfy `p`. -/
def takeWhile (p : Char → Bool) : Reading (List Char) := fun s =>
  let taken := s.rest.takeWhile p
  .ok (taken, s.advance taken.length)

def spaces : Reading Bool := do return !(← takeWhile isSpace).isEmpty

def someSpace (cause : Cause) : Reading Unit := do
  unless ← spaces do fail cause

/-- The reading of another text, in which problems are shown at the place reached here. -/
def inText {α : Type} (text : List Char) (reading : Reading α) : Reading α := fun s =>
  match reading { s with rest := text, line := 1, column := 1, shownAt := some (s.line, s.column) } with
  | .error p => .error p
  | .ok (a, t) =>
    .ok (a, { t with rest := s.rest, line := s.line, column := s.column, shownAt := s.shownAt })

def declare (f : DocType → DocType) : Reading Unit := fun s =>
  .ok ((), { s with docType := f s.docType })

def docType : Reading DocType := fun s => .ok (s.docType, s)

/-- A character that no document may hold is a problem where the text needs to be understood
character by character. -/
def noNull : Reading Unit := do
  if (← peek) == some '\x00' then fail .nullChar

/-- The name at the place reached, empty if none starts there. -/
def name : Reading (List Char) := do
  match ← peek with
  | some c =>
    if isNameStart c then
      let name ← takeWhile isNameChar
      noNull
      return name
    else
      noNull
      return []
  | none => return []

/-- The name without colons at the place reached, empty if none starts there. -/
def localName : Reading (List Char) := do
  match ← peek with
  | some c =>
    if isLocalStart c then
      let name ← takeWhile isLocalChar
      noNull
      return name
    else
      noNull
      return []
  | none => return []

/-- The name at the place reached, parted at its colon. A name with more than one colon, or with
nothing on one side of it, is a problem and is not parted. -/
def qualifiedName : Reading (Option (List Char) × List Char) := do
  let whole ← remaining
  let first ← localName
  if first.isEmpty && (← peek) != some ':' then return (none, [])
  else if !first.isEmpty && (← peek) != some ':' then return (none, first)
  else
    if !first.isEmpty then skip 1
    let second ← if first.isEmpty then pure [] else localName
    if second.isEmpty || (← peek) == some ':' then
      let _ ← takeWhile isNameChar
      let all := whole.take (whole.length - (← remaining).length)
      note (.nameMalformed (String.ofList all))
      return (none, all)
    else return (some first, second)

end Reading

end MarkupIds.Xml
