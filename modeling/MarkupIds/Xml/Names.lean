import MarkupIds.Xml.Reading

/-! Namespaces: which names the attributes of a start tag bind, and what the names of elements and
attributes stand for. A namespace is told by a reference to a resource. -/

namespace MarkupIds.Xml

namespace Uri

open MarkupIds.Text (isLetter isDigit isHexDigit)

def isPathChar (c : Char) : Bool :=
  isLetter c || isDigit c || "-._~!$&'()*+,;=:@/".toList.contains c

def allOf (plain : Char → Bool) : List Char → Bool
  | [] => true
  | '%' :: a :: b :: s => isHexDigit a && isHexDigit b && allOf plain s
  | c :: s => plain c && allOf plain s

def before (mark : Char) (s : List Char) : List Char × Option (List Char) :=
  match s.span (· != mark) with
  | (head, _ :: rest) => (head, some rest)
  | (head, []) => (head, none)

/-- The scheme in front of a colon, and what follows the colon. -/
def scheme? (s : List Char) : Option (List Char × List Char) :=
  match s with
  | c :: r =>
    if isLetter c then
      match r.span fun c => isLetter c || isDigit c || c == '+' || c == '-' || c == '.' with
      | (name, ':' :: rest) => some (c :: name, rest)
      | _ => none
    else none
  | [] => none

/-- Host and port: a port is a number, and a host in square brackets may hold colons. -/
def isAuthority (s : List Char) : Bool :=
  let hostAndPort := match before '@' s with
    | (_, some r) => r
    | (r, none) => r
  match hostAndPort with
  | '[' :: r =>
    match before ']' r with
    | (inside, some rest) =>
      allOf (fun c => isHexDigit c || c == ':' || c == '.') inside &&
        (match rest with
          | [] => true
          | ':' :: port => port.all isDigit
          | _ => false)
    | _ => false
  | r =>
    match before ':' r with
    | (host, port) =>
      allOf (fun c => isPathChar c && c != '/' && c != ':' && c != '@') host &&
        (port.getD []).all isDigit

/-- What stands behind the scheme: perhaps an authority, and a path. -/
def isHierarchy (s : List Char) : Bool :=
  match s with
  | '/' :: '/' :: r =>
    let (authority, path) := r.span (· != '/')
    isAuthority authority && allOf isPathChar path
  | _ => allOf isPathChar s

def isReference (s : List Char) : Bool :=
  let (s, fragment) := before '#' s
  let (s, query) := before '?' s
  let isTail (tail : Option (List Char)) : Bool :=
    (tail.getD []).isEmpty || allOf (fun c => isPathChar c || c == '?') (tail.getD [])
  isTail fragment && isTail query &&
    match scheme? s with
    | some (_, rest) => isHierarchy rest
    | none => isHierarchy s && !((s.takeWhile (· != '/')).contains ':')

def isAbsolute (s : List Char) : Bool := (scheme? s).isSome

end Uri

def xmlNamespace : List Char := "http://www.w3.org/XML/1998/namespace".toList

def xmlnsNamespace : List Char := "http://www.w3.org/2000/xmlns/".toList

/-- Names and the namespaces they stand for, the last bound first. The empty name stands for the
namespace of names without a colon. -/
abbrev Scope := List (List Char × List Char)

namespace Scope

def outermost : Scope := [("xml".toList, xmlNamespace)]

def uri? (scope : Scope) (name : List Char) : Option (List Char) :=
  ((scope.find? fun b => b.1 == name).map (·.2)).filter fun uri => !uri.isEmpty

def nameFor? (scope : Scope) (uri : List Char) : Option (List Char) :=
  (scope.find? fun b => b.2 == uri).map (·.1)

end Scope

structure Given where
  owner : Option (List Char)
  name : List Char
  value : List Char
deriving DecidableEq, Repr

namespace Given

/-- The name that the attribute binds to a namespace, if it is one of those that do. -/
def binds? (g : Given) : Option (List Char) :=
  match g.owner with
  | none => if g.name == "xmlns".toList then some [] else none
  | some owner => if owner == "xmlns".toList then some g.name else none

def fullName (g : Given) : List Char :=
  match g.owner with
  | none => g.name
  | some owner => owner ++ ':' :: g.name

end Given

namespace Reading

def bind (bound : Scope) (name uri : List Char) : Reading Scope := do
  if bound.any fun b => b.1 == name then
    fail (.attributeRedefined (if name.isEmpty then "xmlns" else "xmlns:" ++ String.ofList name))
  return (name, uri) :: bound

/-- The names bound by a start tag with a namespace for names without a colon. -/
def bindDefault (bound : Scope) (uri : List Char) : Reading Scope := do
  unless uri.isEmpty do
    if !Uri.isReference uri then note (.namespaceInvalid (String.ofList uri))
    else if !Uri.isAbsolute uri then note (.namespaceRelative (String.ofList uri))
  if uri == xmlNamespace then
    note .xmlNamespaceAsDefault
    return bound
  else if uri == xmlnsNamespace then
    note .xmlnsNamespaceReused
    return bound
  else bind bound [] uri

/-- The names bound by a start tag with a namespace for a name. -/
def bindName (bound : Scope) (name uri : List Char) : Reading Scope := do
  if name == "xml".toList then
    if uri != xmlNamespace then note .xmlPrefixMisused
    return bound
  else if uri == xmlNamespace then
    note .xmlNamespaceMisused
    return bound
  else if name == "xmlns".toList then
    note .xmlnsRedefined
    return bound
  else if uri == xmlnsNamespace then
    note .xmlnsNamespaceReused
    return bound
  else if uri.isEmpty then
    note (.namespaceEmpty (String.ofList name))
    return bound
  else
    unless Uri.isReference uri do
      note (.prefixedNamespaceInvalid (String.ofList name) (String.ofList uri))
    bind bound name uri

/-- The namespace of an attribute. Names without a colon are in none. -/
def attributeUri (scope : Scope) (element : List Char) (g : Given) :
    Reading (Option (List Char)) := do
  match g.owner with
  | none => return none
  | some owner =>
    match scope.uri? owner with
    | some uri => return some uri
    | none =>
      note (.attributePrefixUndefined (String.ofList owner) (String.ofList g.name)
        (String.ofList element))
      return none

/-- Attributes that mean the same as one before them are a problem, and one that is written the same ends the
reading; the result is their number. What a name stands for that is not defined has been noted before. -/
def clashes (seen : List (Given × Option (List Char))) :
    List (Given × Option (List Char)) → Reading Nat
  | [] => return 0
  | (g, uri) :: rest => do
    if g.owner.isSome && uri.isNone then clashes seen rest
    else
      match seen.find? fun other => other.1.name == g.name && other.2 == uri with
      | some (other, _) =>
        if other.owner == g.owner then fail (.attributeRedefined (String.ofList g.fullName))
        else
          note (.attributeRedefinedIn (String.ofList g.name) (String.ofList (uri.getD [])))
          return (← clashes seen rest) + 1
      | none => clashes (seen ++ [(g, uri)]) rest

/-- No two attributes have the same name, as written or as it is meant. The first of several attributes
that mean the same hides the others from one another, so these are compared once more. -/
def distinct (named : List (Given × Option (List Char))) : Reading Unit := do
  let count ← clashes [] named
  if 1 < count then
    let owned := (named.map (·.1)).filter fun g => g.owner.isSome
    match owned.find? fun g => 1 < owned.countP fun other => other.fullName == g.fullName with
    | some g => fail (.attributeRedefined (String.ofList g.fullName))
    | none => return ()

end Reading

end MarkupIds.Xml
