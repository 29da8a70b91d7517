import MarkupIds.Xml.Aside
import MarkupIds.Xml.Reference
import MarkupIds.Xml.Names

/-! Elements and their content: start tags, end tags, text, and what references bring in. -/

namespace MarkupIds.Xml

open MarkupIds.Markup (Attribute Tag)

structure Open where
  owner : Option (List Char)
  name : List Char
  line : Nat
  scope : Scope

namespace Open

def fullName (e : Open) : List Char :=
  match e.owner with
  | none => e.name
  | some owner => owner ++ ':' :: e.name

end Open

def nameIn (scope : Scope) (uri : Option (List Char)) (name : List Char) : String :=
  match uri.bind scope.nameFor? with
  | none | some [] => String.ofList name
  | some owner => String.ofList (owner ++ ':' :: name)

def attributeOf (scope : Scope) (g : Given) (uri : Option (List Char)) : Attribute :=
  { name := nameIn scope uri g.name
    value := String.ofList g.value
    localName := uri.map fun _ => String.ofList g.name
    uri := uri.map String.ofList }

def bindingAttribute (b : List Char × List Char) : Attribute :=
  { name := if b.1.isEmpty then "xmlns" else "xmlns:" ++ String.ofList b.1
    value := String.ofList b.2
    localName := some (String.ofList b.1)
    uri := some (String.ofList xmlnsNamespace) }

namespace Reading

def isControl (c : Char) : Bool := c.toNat < 0x20 && !isSpace c

def atTagEnd : Reading Bool := do
  match ← remaining with
  | [] => return true
  | '>' :: _ => return true
  | '/' :: '>' :: _ => return true
  | c :: _ => return isControl c

def checkSpace (g : Given) : Reading Unit := do
  if g.fullName == "xml:space".toList then
    if g.value != "default".toList && g.value != "preserve".toList then
      note (.spaceValue (String.ofList g.value))

/-- The attribute at the place reached. -/
def given (rules : List AttributeRule) : Reading Given := do
  let (owner, name) ← qualifiedName
  if name.isEmpty then fail .attributeNameInvalid
  let _ ← spaces
  expect ['='] (.attributeWithoutValue (String.ofList name))
  let _ ← spaces
  let written : Given := { owner, name, value := ← value }
  let isTokens := (rules.find? fun r => r.name == written.fullName).any (·.isTokens)
  let g := if isTokens then { written with value := tokens written.value } else written
  checkSpace g
  return g

def bindGiven (bound : Scope) (g : Given) : Reading Scope :=
  match g.binds? with
  | none => return bound
  | some [] => bindDefault bound g.value
  | some name => bindName bound name g.value

/-- The attributes up to the end of the tag, and the names that they bind. -/
def givens (rules : List AttributeRule) : Nat → Scope → Reading (List Given × Scope)
  | 0, bound => return ([], bound)
  | fuel + 1, bound => do
    if ← atTagEnd then return ([], bound)
    let g ← given rules
    let bound ← bindGiven bound g
    match ← remaining with
    | '>' :: _ => return ([g], bound)
    | '/' :: '>' :: _ => return ([g], bound)
    | _ =>
      someSpace .attributeSpace
      let (rest, bound) ← givens rules fuel bound
      return (g :: rest, bound)

def givenBy (r : AttributeRule) : Option Given :=
  r.default.map fun value =>
    match r.name.span (· != ':') with
    | (owner, ':' :: name) => { owner := some owner, name, value }
    | _ => { owner := none, name := r.name, value }

/-- The value of an attribute that identifies its element is one that no other element has. -/
def checkId (rules : List AttributeRule) (g : Given) : Reading Unit := do
  let isXmlId := g.fullName == "xml:id".toList
  if isXmlId || rules.any (fun r => r.isId && r.name == g.fullName) then
    unless g.value.isEmpty do
      if isXmlId && !isLocalName (tokens g.value) then note (.idInvalid (String.ofList g.value))
      if (← get).ids.contains g.value then note (.idRedefined (String.ofList g.value))
      else modify fun s => { s with ids := g.value :: s.ids }

/-- A start tag, from its bracket on: the element, what has to be known to close it, and whether it
is closed at once. -/
def startTag (outer : Scope) : Reading (Tag × Open × Bool) := do
  let line := (← get).line
  skip 1
  let (owner, name) ← qualifiedName
  if name.isEmpty then fail .elementNameInvalid
  let fullName := ({ owner, name, line, scope := [] } : Open).fullName
  let rules := (← docType).rules.filter fun r => r.element == fullName
  let _ ← spaces
  let (written, bound) ← givens rules (← remaining).length.succ []
  let implied := (rules.filterMap givenBy).filter fun g =>
    !written.any fun w => w.fullName == g.fullName
  let bound ← (implied.filter fun g => g.binds?.isSome).foldlM bindGiven bound
  let scope := bound ++ outer
  let plain := written.filter fun g => g.binds?.isNone
  let uris ← plain.mapM (attributeUri scope name)
  let named := plain.zip uris
  distinct named
  let _ ← (implied.filter fun g => g.binds?.isNone).mapM (attributeUri scope name)
  let uri := scope.uri? (owner.getD [])
  match owner with
  | some owner =>
    if uri.isNone then note (.prefixUndefined (String.ofList owner) (String.ofList name))
  | none => pure ()
  (named.map (·.1)).forM (checkId rules)
  let tag : Tag :=
    { name := String.ofList name
      written := String.ofList fullName
      nsPrefix := (uri.bind scope.nameFor?).map String.ofList
      uri := uri.map String.ofList
      attributes := named.map (fun a => attributeOf scope a.1 a.2) ++
        bound.reverse.map bindingAttribute }
  let closed ← accept ['/', '>']
  unless closed do expect ['>'] (.tagNotFinished (String.ofList name) line)
  return (tag, { owner, name, line, scope }, closed)

/-- The name in an end tag, if it is not the one that is wanted. A name that is goes by its bytes. -/
def wrongName? (e : Open) : Reading (Option (List Char)) := do
  let wanted := e.fullName
  let s ← get
  let after := s.rest.drop wanted.length
  let ends := match after with
    | c :: _ => c == '>' || isSpace c
    | [] => false
  if wanted.isPrefixOf s.rest && ends then
    set { s with rest := after, column := wanted.foldl (fun column (c : Char) => column + c.utf8Size) s.column }
    return none
  else
    match e.owner with
    | none =>
      let found ← name
      return if found == e.name then none else some found
    | some owner =>
      let (p, found) ← qualifiedName
      return if found == e.name && p == some owner then none else some found

/-- The end tag of an element, from its bracket on. -/
def endTag (e : Open) : Reading Unit := do
  skip 2
  let wrong ← wrongName? e
  let _ ← spaces
  expect ['>'] .closeExpected
  match wrong with
  | none => return ()
  | some found =>
    let shown := if found.isEmpty then "unparsable" else String.ofList found
    fail (.tagMismatch (String.ofList e.name) e.line shown)

/-- Text up to the next tag or reference. -/
def characterData : Nat → Reading (List Char)
  | 0 => return []
  | fuel + 1 => do
    match ← remaining with
    | [] => return []
    | '<' :: _ => return []
    | '&' :: _ => return []
    | ']' :: ']' :: '>' :: _ => fail .sectionEndInData
    | c :: _ =>
      if c == '\x00' then fail .nullChar
      else if isXmlChar c then
        skip 1
        return c :: (← characterData fuel)
      else fail (.dataChar c.toNat)

/-- A reference in the content; `expand` reads the text of an entity that has not been read. -/
def reference (expand : List Char → List Char → Reading Unit) : Reading Piece := do
  match ← remaining with
  | '&' :: '#' :: _ => return .text .plain [← characterReference]
  | _ =>
    let name ← entityReference
    match plainEntity? name with
    | some c => return .text .plain [c]
    | none =>
      match ← lookUp false name with
      | none => return .reference
      | some e =>
        match e.meaning, e.isRead with
        | .inside text, false =>
          expand name text
          declare fun d => d.updateEntity name fun e => { e with isRead := true }
          return .reference
        | _, _ => return .reference

/-- The content of the open elements, the innermost first, up to the end of the outermost; the text
of an entity goes on to its own end. -/
def content (expand : Scope → List Char → List Char → Reading Unit) (inEntity : Bool)
    (outer : Scope) : Nat → List Open → Reading (List Piece)
  | 0, _ => fail .notBalanced
  | fuel + 1, stack => do
    let scope := match stack with
      | e :: _ => e.scope
      | [] => outer
    if stack.isEmpty && !inEntity then return []
    else if ← sees "<![CDATA[".toList then
      let piece ← characterSection
      return piece :: (← content expand inEntity outer fuel stack)
    else if ← sees "<!--".toList then
      let piece ← comment
      return piece :: (← content expand inEntity outer fuel stack)
    else
      match ← remaining, stack with
      | [], [] => return []
      | [], e :: _ => fail (.endOfData (String.ofList e.name) e.line)
      | '<' :: '?' :: _, _ =>
        let piece ← instruction
        return piece :: (← content expand inEntity outer fuel stack)
      | '<' :: '/' :: _, [] => fail .notBalanced
      | '<' :: '/' :: _, e :: stack =>
        endTag e
        return .closing :: (← content expand inEntity outer fuel stack)
      | '<' :: _, _ =>
        let (tag, e, closed) ← startTag scope
        if closed then return .opening tag :: .closing :: (← content expand inEntity outer fuel stack)
        else return .opening tag :: (← content expand inEntity outer fuel (e :: stack))
      | '&' :: _, _ =>
        let piece ← reference (expand scope)
        return piece :: (← content expand inEntity outer fuel stack)
      | _, _ =>
        let text ← characterData (← remaining).length.succ
        return .text .plain (unifyLines text) :: (← content expand inEntity outer fuel stack)

def entityContent : Nat → Scope → List Char → List Char → Reading Unit
  | 0, _, _, _ => fail .entityLoop
  | depth + 1, scope, name, text => do
    let _ ← expandingName name
      (inText text (content (entityContent depth) true scope text.length.succ []))

def root : Reading (List Piece) := do
  let (tag, e, closed) ← startTag Scope.outermost
  if closed then return [.opening tag, .closing]
  else
    let depth := (← docType).entities.length.succ
    let fuel := (← remaining).length.succ
    return .opening tag :: (← content (entityContent depth) false Scope.outermost fuel [e])

end Reading

end MarkupIds.Xml
