import MarkupIds.Text.Blank

/-! The options of a run: where ids are written, how they are made, and which elements get one. -/

namespace MarkupIds

/-- How an id is made: from a digest of the element's place, from its text, or from its place. -/
inductive Strategy where
  | hash
  | slug
  | path
deriving DecidableEq, Repr

namespace Strategy

def name : Strategy → String
  | .hash => "hash"
  | .slug => "slug"
  | .path => "path"

def ofName? (s : String) : Option Strategy :=
  [hash, slug, path].find? fun strategy => strategy.name == s

end Strategy

/-- A character that may stand in an attribute's name. -/
def isAttrChar (c : Char) : Bool :=
  !(Text.isBlank c || c == '"' || c == '\'' || c == '<' || c == '>' || c == '/' || c == '=')

def isAttrName (s : List Char) : Bool := !s.isEmpty && s.all isAttrChar

/-- The options of a run. The name sets are lists in rising order without repetition. -/
structure Options where
  attr : List Char := ['d', 'a', 't', 'a', '-', 'a', 's', 't', '-', 'i', 'd']
  strategy : Strategy := .hash
  idPrefix : String := "el-"
  overwrite : Bool := false
  selector : Option String := none
  included : List String := []
  excluded : List String := []
  attr_plain : isAttrName attr = true := by decide

namespace Options

def attrName (o : Options) : String := String.ofList o.attr

end Options

def insertName (name : String) : List String → List String
  | [] => [name]
  | other :: rest =>
    if name == other then other :: rest
    else if other < name then other :: insertName name rest
    else name :: other :: rest

def nameSet (names : List String) : List String := names.foldl (fun set name => insertName name set) []

/-- The first value under a name in a list of attributes. -/
def findAttribute {α : Type} [BEq α] (attributes : List (α × List Char)) (name : α) :
    Option (List Char) :=
  (attributes.find? fun a => a.1 == name).map (·.2)

namespace Options

/-- An element may receive an id: it carries none or ids are overwritten, its name is among the
included ones if there are any, and it is not among the excluded ones. -/
def admits (o : Options) (name : String) (existing : Option (List Char)) : Bool :=
  (existing.isNone || o.overwrite) && (o.included.isEmpty || o.included.contains name) &&
    !o.excluded.contains name

/-- An element with a value is admitted only where values are overwritten. -/
theorem overwrite_or_eq_none_of_admits {o : Options} {name : String} {existing : Option (List Char)}
    (h : o.admits name existing = true) : o.overwrite = true ∨ existing = none := by
  rw [admits, Bool.and_eq_true, Bool.and_eq_true, Bool.or_eq_true, Option.isNone_iff_eq_none] at h
  exact h.1.1.symm

end Options

end MarkupIds
