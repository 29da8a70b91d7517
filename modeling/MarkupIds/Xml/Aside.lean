import MarkupIds.Xml.Reading
import MarkupIds.Text.Quoted

/-! What stands between the tags and is no text of its own: comments, instructions, and sections of
character data. -/

namespace MarkupIds.Xml

/-- The first `limit` bytes of a text; of a character that they cut through, the bytes themselves. -/
def firstBytes : Nat → List Char → List Char
  | _, [] => []
  | limit, c :: s =>
    let bytes := String.utf8EncodeChar c
    if bytes.length ≤ limit then c :: firstBytes (limit - bytes.length) s
    else (bytes.take limit).flatMap fun b => '\\' :: 'x' :: Text.hexDigits 2 b.toNat

def shownPart (s : List Char) : String := String.ofList (firstBytes 50 s)

def unifyLines (s : List Char) : List Char := s.map fun c => if c == '\r' then '\n' else c

namespace Reading

def isEasy (c : Char) : Bool := c == '\t' || c == '\n' || (' ' ≤ c && c.toNat ≤ 0x7F)

/-- The rest of a comment, looked at character by character: `a` and `b` are the last two characters
and `before` what stands before them, in reverse. -/
def commentEnd : Nat → List Char → Char → Char → Reading (List Char)
  | 0, _, _, _ => fail .commentNotFinished
  | fuel + 1, before, a, b => do
    noNull
    match ← peek with
    | none => fail (.commentNotFinishedAfter (shownPart (unifyLines before.reverse)))
    | some c =>
      if !isXmlChar c then fail (.commentChar c.toNat)
      else if a == '-' && b == '-' then
        if c == '>' then
          skip 1
          return before.reverse
        else fail .hyphensAfterText
      else
        skip 1
        commentEnd fuel (a :: before) b c

def commentChar : Reading Char := do
  noNull
  match ← peek with
  | none => fail .commentNotFinished
  | some c =>
    if isXmlChar c then
      skip 1
      return c
    else fail (.commentChar c.toNat)

def commentClosely (before : List Char) : Reading (List Char) := do
  let a ← commentChar
  let b ← commentChar
  noNull
  if (← peek).isNone then fail .commentNotFinished
  commentEnd (← remaining).length.succ before a b

/-- The content of a comment. -/
def commentFrom : Nat → List Char → Reading (List Char)
  | 0, before => commentClosely before
  | fuel + 1, before => do
    match ← remaining with
    | '-' :: '-' :: '>' :: _ =>
      skip 3
      return before.reverse
    | '-' :: '-' :: _ =>
      if before.isEmpty then fail .hyphensAtStart
      else fail (.hyphens (shownPart (unifyLines before.reverse)))
    | c :: _ =>
      if isEasy c then
        skip 1
        commentFrom fuel (c :: before)
      else commentClosely before
    | [] => commentClosely before

def comment : Reading Piece := do
  skip 4
  return .text .comment (← commentFrom (← remaining).length.succ [])

def knownTargets : List String := ["xml-stylesheet", "xml-model"]

def target : Reading (List Char) := do
  let name ← name
  let start := name.take 3
  if start.map Char.toLower == ['x', 'm', 'l'] then
    if name == ['x', 'm', 'l'] then fail .targetMisplaced
    else if name.length == 3 then fail .targetReserved
    else if !knownTargets.contains (String.ofList name) then note .targetDiscouraged
  if name.contains ':' then note (.targetWithColon (String.ofList name))
  return name

/-- The rest of an instruction. -/
def instructionEnd (name : List Char) : Nat → Reading (List Char)
  | 0 => fail (.instructionNotFinished (String.ofList name))
  | fuel + 1 => do
    noNull
    match ← remaining with
    | '?' :: '>' :: _ =>
      skip 2
      return []
    | c :: _ =>
      if isXmlChar c then
        skip 1
        return c :: (← instructionEnd name fuel)
      else fail (.instructionNotFinished (String.ofList name))
    | [] => fail (.instructionNotFinished (String.ofList name))

/-- An instruction, from its opening on. -/
def instruction : Reading Piece := do
  skip 2
  let name ← target
  if name.isEmpty then fail .targetMissing
  if ← accept ['?', '>'] then return .text .instruction name
  someSpace (.instructionSpace (String.ofList name))
  let content ← instructionEnd name (← remaining).length.succ
  return .text .instruction (name ++ ' ' :: content)

/-- The rest of a section of character data: `a` and `b` are the last two characters and `before`
what stands before them, in reverse. -/
def sectionEnd : Nat → List Char → Char → Char → Reading (List Char)
  | 0, before, _, _ => fail (.sectionNotFinished (shownPart (unifyLines before.reverse)))
  | fuel + 1, before, a, b => do
    noNull
    match ← peek with
    | none => fail (.sectionNotFinished (shownPart (unifyLines before.reverse)))
    | some c =>
      if a == ']' && b == ']' && c == '>' then
        skip 1
        return before.reverse
      else if isXmlChar c then
        skip 1
        sectionEnd fuel (a :: before) b c
      else fail (.sectionNotFinished (shownPart (unifyLines before.reverse)))

/-- The next character at the start of a section. -/
def sectionChar : Reading Char := do
  noNull
  match ← peek with
  | none => fail .sectionNotStarted
  | some c =>
    if isXmlChar c then
      skip 1
      return c
    else fail .sectionNotStarted

def characterSection : Reading Piece := do
  skip 9
  let a ← sectionChar
  let b ← sectionChar
  return .text .plain (unifyLines (← sectionEnd (← remaining).length.succ [] a b))

end Reading

end MarkupIds.Xml
