/-! How alike two texts are: twice the number of characters in common runs over the number of all
characters. The longest common run counts first, then those on either side of it. -/

namespace MarkupIds.Text

def commonStart : List Char → List Char → Nat
  | a :: as, b :: bs => if a == b then commonStart as bs + 1 else 0
  | _, _ => 0

/-- Where a run stands in two texts, and how long it is. -/
structure CommonRun where
  first : Nat
  second : Nat
  size : Nat
deriving DecidableEq, Repr

/-- The longest run that two texts have in common; of several the first in `a`, and of those the first
in `b`. -/
def longestRun (a b : List Char) : CommonRun :=
  let places := (List.range a.length).flatMap fun i => (List.range b.length).map fun j => (i, j)
  places.foldl (fun best (i, j) =>
    let size := commonStart (a.drop i) (b.drop j)
    if size > best.size then ⟨i, j, size⟩ else best) ⟨0, 0, 0⟩

/-- Number of characters in the common runs of two texts; `fuel` bounds the number of runs. -/
def commonCount : Nat → List Char → List Char → Nat
  | 0, _, _ => 0
  | fuel + 1, a, b =>
    let run := longestRun a b
    if run.size == 0 then 0
    else
      run.size + commonCount fuel (a.take run.first) (b.take run.second) +
        commonCount fuel (a.drop (run.first + run.size)) (b.drop (run.second + run.size))

/-- A text with its likeness to another as a fraction. -/
structure Likeness where
  text : String
  common : Nat
  total : Nat

namespace Likeness

def of (word text : String) : Likeness :=
  let a := text.toList
  let b := word.toList
  ⟨text, commonCount a.length a b, a.length + b.length⟩

def isClose (l : Likeness) : Bool := 10 * l.common ≥ 3 * l.total

def le (l m : Likeness) : Bool :=
  let x := l.common * m.total
  let y := m.common * l.total
  x > y || (x == y && l.text ≥ m.text)

end Likeness

def similar (word : String) (texts : List String) : List String :=
  let close := (texts.map (Likeness.of word)).filter Likeness.isClose
  ((close.mergeSort Likeness.le).take 3).map (·.text)

end MarkupIds.Text
