import MarkupIds.Markup.Place
import MarkupIds.Text.Lower

/-! What a selector has to know of the document it is applied to. -/

namespace MarkupIds.Selector

open MarkupIds.Markup (Node Place Tag Attribute)

def htmlUri : String := "http://www.w3.org/1999/xhtml"

/-- The namespace behind the prefix that XML reserves. -/
def xmlUri : String := "http://www.w3.org/XML/1998/namespace"

/-- The document that a selector is applied to. In lists that make sense for HTML alone the prefix
of HTML is known, and what lies inside a frame is out of reach. -/
structure Scope where
  isXml : Bool
  root : Option Place
  inHtml : Bool := false

namespace Scope

def ofDocument (isXml : Bool) (nodes : List Node) : Scope :=
  ⟨isXml, (Place.document nodes).childPlaces.head?, false⟩

def rootIsHtml (s : Scope) : Bool := s.root.any fun r => r.tag.uri == some htmlUri

def hasNamespaces (s : Scope) : Bool := s.isXml || s.rootIsHtml

def isHtml (s : Scope) : Bool := !s.isXml || s.rootIsHtml

/-- The namespace of an element; where namespaces do not count all elements are of HTML. -/
def uriOf (s : Scope) (t : Tag) : String :=
  if s.hasNamespaces then t.uri.getD "" else htmlUri

def isHtmlTag (s : Scope) (t : Tag) : Bool := s.uriOf t == htmlUri

/-- The name as it is compared: outside XML case does not count. -/
def nameOf (s : Scope) (t : Tag) : String := if s.isXml then t.name else Text.asciiLower t.name

def isFrame (s : Scope) (t : Tag) : Bool := s.nameOf t == "iframe" && s.isHtmlTag t

/-- The value of an attribute whose name is given in lower case. -/
def value? (s : Scope) (t : Tag) (name : String) : Option String :=
  let fits (a : Attribute) : Bool :=
    if s.isXml then a.name == name else Text.asciiLower a.name == name
  (t.attributes.find? fits).map (·.value)

def lowerValue (s : Scope) (t : Tag) (name : String) : String :=
  Text.asciiLower ((s.value? t name).getD "")

/-- The places of a chain up to the first one that lies directly in a frame. -/
def withinFrame (s : Scope) : List Place → List Place
  | [] => []
  | p :: rest => if s.isFrame p.tag then [] else p :: s.withinFrame rest

/-- All that an element is in, the nearest first; inside a frame up to the frame where `bounded`. -/
def ancestors (s : Scope) (bounded : Bool) (p : Place) : List Place :=
  if bounded then s.withinFrame p.ancestors else p.ancestors

/-- The elements directly inside a place; none for a frame where `bounded`. -/
def children (s : Scope) (bounded : Bool) (p : Place) : List Place :=
  if bounded && s.isFrame p.tag then [] else p.childPlaces

/-- The elements inside a place at any depth; where `bounded`, none inside a frame. -/
def inside (s : Scope) (bounded : Bool) (p : Place) : List Place :=
  p.inside fun t => bounded && s.isFrame t

def isRoot (s : Scope) (p : Place) : Bool :=
  (s.root.any p.same) || (s.isHtml && p.parent.any fun q => s.isFrame q.tag)

end Scope

def isSpace (c : Char) : Bool :=
  c == ' ' || c == '\t' || c == '\r' || c == '\n' || c.toNat == 12

def wordsOf (s : List Char) : List (List Char) :=
  (Text.splitWhere isSpace s).filter fun w => !w.isEmpty

end MarkupIds.Selector
