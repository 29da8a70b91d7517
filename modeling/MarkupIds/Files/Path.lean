import MarkupIds.Text.Blank

/-! Paths to files. A path is kept in its plain form: empty parts and parts that name the directory
they stand in are dropped, steps upwards stay. -/

namespace MarkupIds

/-- A path to a file or directory. -/
structure Path where
  root : String := ""
  parts : List String
deriving DecidableEq, Repr

namespace Path

def pieces (s : String) : List String :=
  (Text.splitWhere (· == '/') s.toList).map String.ofList

/-- The root that a text names. Two strokes are kept, other numbers of strokes count as one. -/
def rootOf (s : String) : String :=
  match (s.toList.takeWhile (· == '/')).length with
  | 0 => ""
  | 2 => "//"
  | _ => "/"

def ofString (s : String) : Path :=
  { root := rootOf s, parts := (pieces s).filter fun p => p != "" && p != "." }

/-- The path as text; the working directory is a single point. -/
def toString (p : Path) : String :=
  if p.root == "" && p.parts.isEmpty then "." else p.root ++ "/".intercalate p.parts

def name (p : Path) : String := p.parts.getLast?.getD ""

def parent (p : Path) : Path := { p with parts := p.parts.dropLast }

def join (p q : Path) : Path := if q.root == "" then { p with parts := p.parts ++ q.parts } else q

/-- The path of something in the directory `p`. A name that is empty is the directory itself. -/
def child (p : Path) (name : String) : Path := p.join (ofString name)

/-- The last point of a name and what follows it, unless it is the first or last character. -/
def suffixOf (name : List Char) : List Char :=
  let tail := (name.reverse.takeWhile (· != '.')).reverse
  if tail.isEmpty || name.length ≤ tail.length + 1 then [] else '.' :: tail

def suffix (p : Path) : List Char := suffixOf p.name.toList

def partsLe : List String → List String → Bool
  | [], _ => true
  | _ :: _, [] => false
  | a :: as, b :: bs => if a == b then partsLe as bs else a < b

end Path

end MarkupIds
