/-! Edits of a text: ranges of offsets, each with the text that takes its place. -/

namespace MarkupIds

/-- The characters from `start` up to `stop` give way to `replacement`. -/
structure Edit where
  start : Nat
  stop : Nat
  replacement : List Char
deriving DecidableEq, Repr

namespace Edit

/-- Order of edits: by start, then by stop, so that an insertion comes before a removal that starts
at its place. -/
def le (a b : Edit) : Bool := a.start < b.start || (a.start == b.start && a.stop ≤ b.stop)

def putInto (e : Edit) : List Edit → List Edit
  | [] => [e]
  | other :: rest => if le e other then e :: other :: rest else other :: putInto e rest

def inOrder (edits : List Edit) : List Edit := edits.foldr putInto []

/-- The edits made one after another; `rest` is the text from offset `cursor` on. The error is the
start of an edit that begins before its predecessor ends. -/
def spliceFrom (cursor : Nat) (rest : List Char) : List Edit → Except Nat (List Char)
  | [] => .ok rest
  | e :: edits =>
    if e.start < cursor then .error e.start
    else
      match spliceFrom e.stop (rest.drop (e.stop - cursor)) edits with
      | .ok tail => .ok (rest.take (e.start - cursor) ++ e.replacement ++ tail)
      | .error start => .error start

def splice (source : List Char) (edits : List Edit) : Except Nat (List Char) :=
  spliceFrom 0 source (inOrder edits)

end Edit

end MarkupIds
