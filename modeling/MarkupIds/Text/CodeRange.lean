/-! Sets of characters given by ranges of code points. -/

namespace MarkupIds.Text

/-- Every `step`-th code point from `first` to `last`. -/
structure CodeRange where
  first : Nat
  last : Nat
  step : Nat

namespace CodeRange

def contains (r : CodeRange) (n : Nat) : Bool :=
  r.first ≤ n && n ≤ r.last && (n - r.first) % r.step == 0

end CodeRange

def inRanges (rs : List CodeRange) (c : Char) : Bool := rs.any (·.contains c.toNat)

end MarkupIds.Text
