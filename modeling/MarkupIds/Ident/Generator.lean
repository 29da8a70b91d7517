import MarkupIds.Ident.Digest
import MarkupIds.Options.Basic
import MarkupIds.Text.Alphanumeric
import MarkupIds.Text.Lower

/-! Ids of one document: slugs are the words of a text in lower case, joined by hyphens. Every id passes
through `ensureUnique`, so none is handed out twice. -/

namespace MarkupIds

namespace Slug

def maxLength : Nat := 50

def isKept (c : Char) : Bool := Text.isAlphanumeric c || c == '-'

/-- Letters, digits and hyphens stay, everything else becomes a space. -/
def cleaned (s : List Char) : List Char := s.map fun c => if isKept c then c else ' '

def hyphenated : List (List Char) → List Char
  | [] => []
  | [w] => w
  | w :: rest => w ++ '-' :: hyphenated rest

def ofText (s : List Char) : List Char :=
  (hyphenated (Text.words (cleaned (Text.trim (Text.lower s))))).take maxLength

theorem length_ofText_le (s : List Char) : (ofText s).length ≤ maxLength := by
  rw [ofText, List.length_take]
  exact Nat.min_le_left _ _

end Slug

/-- An element that is about to receive an id. Its text is given only where ids are slugs. -/
structure Descriptor where
  name : String
  path : List Int
  text : Option (List Char) := none

/-- The ids handed out so far, and a counter that the caller advances. -/
structure Generator where
  used : List String := []
  counter : Nat := 0

namespace Generator

def suffixed (candidate : String) (k : Nat) : String := candidate ++ "-" ++ toString k

/-- The candidate, or its variant of the least number from two on that is not yet used. -/
def firstFree (used : List String) (candidate : String) : String :=
  if used.contains candidate then
    match (List.range' 2 (used.length + 1)).find? fun k => !used.contains (suffixed candidate k) with
    | some k => suffixed candidate k
    | none => candidate
  else candidate

/-- The first free variant of a candidate, which is used from then on. -/
def ensureUnique (g : Generator) (candidate : String) : String × Generator :=
  let id := firstFree g.used candidate
  (id, { g with used := id :: g.used })

def increment (g : Generator) : Generator := { g with counter := g.counter + 1 }

def joinedPath (path : List Int) : String := ":".intercalate (path.map toString)

def fingerprint (name : String) (path : List Int) : String :=
  "\x7b\"type\":\"" ++ name ++ "\",\"path\":\"" ++ joinedPath path ++ "\"\x7d"

/-- The candidate of a hash id: eight digits of a digest of name and path. -/
def hashCandidate (name : String) (path : List Int) (idPrefix : String) : String :=
  idPrefix ++ String.ofList ((Digest.hex (fingerprint name path)).take 8)

/-- The candidate of a path id: the name and the numbers of the path. -/
def pathCandidate (name : String) (path : List Int) (idPrefix : String) : String :=
  idPrefix ++ name ++ String.join (path.map fun n => "-" ++ toString n)

/-- The candidate of a slug id: the slug of the text, or a hash id where there is no text. -/
def slugCandidate (text : List Char) (idPrefix : String) : String :=
  if text.isEmpty then hashCandidate "unknown" [] idPrefix
  else idPrefix ++ String.ofList (Slug.ofText text)

/-- The candidate that the options ask for. -/
def candidate (element : Descriptor) (o : Options) : String :=
  match o.strategy with
  | .slug => slugCandidate (element.text.getD []) o.idPrefix
  | .path => pathCandidate element.name element.path o.idPrefix
  | .hash => hashCandidate element.name element.path o.idPrefix

def generate (g : Generator) (element : Descriptor) (o : Options) : String × Generator :=
  g.ensureUnique (candidate element o)

end Generator

end MarkupIds
