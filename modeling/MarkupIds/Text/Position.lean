/-! Places in a text, as line and column, and the way back to an offset. -/

namespace MarkupIds.Text

/-- A place in a text: lines count from one and end at line feeds alone, columns count characters
from zero. -/
structure Position where
  line : Nat
  column : Nat
deriving DecidableEq, Repr

namespace Position

def start : Position := ⟨1, 0⟩

/-- The place after one more character. -/
def step (p : Position) (c : Char) : Position :=
  if c == '\n' then ⟨p.line + 1, 0⟩ else ⟨p.line, p.column + 1⟩

def advance (p : Position) (piece : List Char) : Position := piece.foldl step p

theorem advance_append (p : Position) (a b : List Char) :
    p.advance (a ++ b) = (p.advance a).advance b := List.foldl_append

end Position

/-- Offsets at which the lines of `s` start, where `s` itself starts a line at `offset`. -/
def lineStartsFrom (offset : Nat) : List Char → List Nat
  | [] => []
  | c :: rest =>
    if c == '\n' then (offset + 1) :: lineStartsFrom (offset + 1) rest
    else lineStartsFrom (offset + 1) rest

def lineStarts (s : List Char) : List Nat := 0 :: lineStartsFrom 0 s

def positionAt (s : List Char) (n : Nat) : Position := Position.start.advance (s.take n)

/-- The offset of a place, found in the table of line starts. -/
def offsetIn (starts : List Nat) (p : Position) : Nat := starts.getD (p.line - 1) 0 + p.column

end MarkupIds.Text
