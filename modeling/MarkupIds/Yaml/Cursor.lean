import MarkupIds.Text.Cut

/-! A place in a configuration text: what is left of it, and the line and column reached. Line ends
are line feeds, the control U+0085, and the two separators U+2028 and U+2029. -/

namespace MarkupIds.Yaml

def isBreak (c : Char) : Bool :=
  c == '\n' || c.toNat == 0x85 || c.toNat == 0x2028 || c.toNat == 0x2029

def isGap (c : Char) : Bool := c == ' ' || c == '\t'

/-- A character that may stand in a configuration text. -/
def isAllowed (c : Char) : Bool :=
  let n := c.toNat
  n == 9 || n == 10 || n == 13 || (0x20 ≤ n && n ≤ 0x7E) || n == 0x85 ||
    (0xA0 ≤ n && n ≤ 0xD7FF) || (0xE000 ≤ n && n ≤ 0xFFFD) || 0x10000 ≤ n

/-- The text ends, or goes on with a character that satisfies `p`. -/
def endsOr (p : Char → Bool) : List Char → Bool
  | [] => true
  | c :: _ => p c

def wordEnds (s : List Char) : Bool := endsOr (fun c => isGap c || isBreak c) s

def spacedOff (s : List Char) : Bool := endsOr (fun c => c == ' ' || isBreak c) s

def isNameChar (c : Char) : Bool := Text.isLetter c || Text.isDigit c || c == '-' || c == '_'

/-- A place in a text. -/
structure Cursor where
  rest : List Char
  line : Nat := 0
  column : Nat := 0

namespace Cursor

/-- The place after one more character. A byte order mark has no width. -/
def next (c : Cursor) : Cursor :=
  match c.rest with
  | [] => c
  | x :: rest =>
    if isBreak x then ⟨rest, c.line + 1, 0⟩
    else if x == '\uFEFF' then ⟨rest, c.line, c.column⟩
    else ⟨rest, c.line, c.column + 1⟩

/-- The place after `n` more characters. -/
def skip : Nat → Cursor → Cursor
  | 0, c => c
  | n + 1, c => skip n c.next

def run (p : Char → Bool) (c : Cursor) : List Char := c.rest.takeWhile p

def skipWhile (p : Char → Bool) (c : Cursor) : Cursor := c.skip (c.run p).length

/-- The line end that stands here, and the place after it. The control U+0085 counts as a line
feed. -/
def takeBreak? (c : Cursor) : Option (Char × Cursor) :=
  match c.rest with
  | [] => none
  | x :: _ =>
    if x == '\n' || x.toNat == 0x85 then some ('\n', c.next)
    else if isBreak x then some (x, c.next)
    else none

/-- The three characters `mark` stand here at the start of a line, and nothing is joined to them. -/
def atMark (mark : List Char) (c : Cursor) : Bool :=
  c.column == 0 &&
    match Text.after? mark c.rest with
    | some rest => wordEnds rest
    | none => false

def atStartMark (c : Cursor) : Bool := c.atMark ['-', '-', '-']

def atEndMark (c : Cursor) : Bool := c.atMark ['.', '.', '.']

def atAnyMark (c : Cursor) : Bool := c.atStartMark || c.atEndMark

/-- The place after the rest of a line that holds nothing but spaces and a comment; none if it holds
more. -/
def emptyLine? (c : Cursor) : Option Cursor :=
  let c := c.skipWhile (· == ' ')
  let c := if c.rest.head? == some '#' then c.skipWhile (fun x => !isBreak x) else c
  match c.takeBreak? with
  | some (_, c) => some c
  | none => if c.rest.isEmpty then some c else none

end Cursor

end MarkupIds.Yaml
