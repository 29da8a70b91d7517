import MarkupIds.Xml.Aside
import MarkupIds.Xml.Reference

/-! The document type: its name, where more of it lies, and the declarations inside it. -/

namespace MarkupIds.Xml.Reading

def systemLiteral : Reading (List Char) := do
  match ← peek with
  | some quote =>
    if quote == '"' || quote == '\'' then
      skip 1
      let text ← takeWhile fun c => isXmlChar c && c != quote
      noNull
      expect [quote] .literalNotFinished
      return text
    else fail .literalNotStarted
  | none => fail .literalNotStarted

def publicLiteral : Reading Unit := do
  match ← peek with
  | some quote =>
    if quote == '"' || quote == '\'' then
      skip 1
      let _ ← takeWhile fun c => isPublicChar c && c != quote
      expect [quote] .literalNotFinished
    else fail .literalNotStarted
  | none => fail .literalNotStarted

/-- Where something lies, if that is said. With `loose` a public name may stand alone. -/
def externalId (loose : Bool) : Reading (Option (List Char)) := do
  if ← accept "SYSTEM".toList then
    someSpace (.spaceAfter "'SYSTEM'")
    return some (← systemLiteral)
  else if ← accept "PUBLIC".toList then
    someSpace (.spaceAfter "'PUBLIC'")
    publicLiteral
    let spaced ← spaces
    let quoted := match ← peek with
      | some c => c == '"' || c == '\''
      | none => false
    if loose && !(spaced && quoted) then return some []
    unless spaced do fail (.spaceAfter "the Public Identifier")
    return some (← systemLiteral)
  else return none

def stepBytes (s : State) (c : Char) (rest : List Char) : State :=
  if c == '\n' then { s with rest, line := s.line + 1, column := 1 }
  else { s with rest, column := s.column + c.utf8Size }

/-- The text of an entity up to its quote. The opening quote takes no column. -/
def rawEntityText (quote : Char) : Reading (List Char) := do
  let s ← get
  let text := s.rest.takeWhile fun c => c != quote && c != '\x00'
  let t := text.foldl (fun (t : State) c => stepBytes t c (t.rest.drop 1)) s
  set t
  match t.rest with
  | [] => fail .entityValueNotFinished
  | c :: _ => if c == quote then return text else fail .entityValueChar

/-- The text of an entity with its references to characters resolved. -/
def resolvedText : Nat → List Char → Reading (List Char)
  | 0, _ => return []
  | _, [] => return []
  | fuel + 1, c :: s => do
    if !isXmlChar c then fail .entityValueChar
    else if c == '%' then fail .parameterInValue
    else if c == '&' then
      match ← referenceWithin s with
      | (.inl c, rest) => return c :: (← resolvedText fuel rest)
      | (.inr name, rest) => return '&' :: (name ++ ';' :: (← resolvedText fuel rest))
    else return c :: (← resolvedText fuel s)

def entityText (quote : Char) : Reading (List Char) := do
  modify fun s => { s with rest := s.rest.drop 1 }
  let raw ← rawEntityText quote
  let text ← resolvedText raw.length.succ raw
  skip 1
  return text

/-- What an entity stands for, where that is no text in quotes. -/
def outsideMeaning (isParameter : Bool) : Reading Meaning := do
  match ← externalId false with
  | none => fail .entityValueRequired
  | some uri =>
    if uri.contains '#' then fail .uriFragment
    if isParameter then return .outside
    let atEnd := (← peek) == some '>'
    unless atEnd do someSpace (.spaceBefore "'NDATA'")
    if ← accept "NDATA".toList then
      someSpace (.spaceAfter "'NDATA'")
      let _ ← name
      return .unparsed
    else return .outside

/-- The declaration of an entity, from behind its keyword on. -/
def entityDeclaration : Reading Unit := do
  someSpace (.spaceAfter "'<!ENTITY'")
  let isParameter ← accept ['%']
  if isParameter then someSpace (.spaceAfter "'%'")
  let name ← name
  if name.isEmpty then fail .entityNameMissing
  if name.contains ':' then note (.entityNameWithColon (String.ofList name))
  someSpace (.spaceAfter "the entity name")
  let meaning ← match ← peek with
    | some '"' => pure (.inside (← entityText '"'))
    | some '\'' => pure (.inside (← entityText '\''))
    | _ => outsideMeaning isParameter
  let _ ← spaces
  expect ['>'] (.entityNotFinished (String.ofList name))
  let entity : Entity := { name, meaning }
  if isParameter then declare fun d => d.addParameter entity
  else declare fun d => d.addEntity entity

def quantifier : Reading Unit := do
  match ← peek with
  | some '?' => skip 1
  | some '*' => skip 1
  | some '+' => skip 1
  | _ => return ()

/-- A model of elements from behind an opening bracket on, up to the closing bracket and its
quantifier. With `wanted` a part has been read, `some none` before any separator. -/
def contentModel : Nat → Option (Option Char) → Reading Unit
  | 0, _ => fail .contentNotFinished
  | fuel + 1, none => do
    let _ ← spaces
    if ← accept ['('] then contentModel fuel none
    else
      let name ← name
      if name.isEmpty then fail .contentNameExpected
      quantifier
    contentModel fuel (some none)
  | fuel + 1, some separator => do
    let _ ← spaces
    match ← peek with
    | some ')' =>
      skip 1
      quantifier
    | some c =>
      if c == ',' || c == '|' then
        match separator with
        | some wanted => if wanted != c then fail (.contentSeparator wanted)
        | none => pure ()
        skip 1
        let _ ← spaces
        if ← accept ['('] then contentModel fuel none
        else
          let name ← name
          if name.isEmpty then fail .contentNameExpected
          quantifier
        contentModel fuel (some (some c))
      else fail .contentNotFinished
    | none => fail .contentNotFinished

/-- The names of a model with text, from behind its keyword on. -/
def mixedNames : Nat → Reading Unit
  | 0 => fail .mixedNotFinished
  | fuel + 1 => do
    let _ ← spaces
    if ← accept ['|'] then
      let _ ← spaces
      let name ← name
      if name.isEmpty then fail .mixedNameExpected
      mixedNames fuel
    else expect [')', '*'] .mixedNotFinished

/-- The declaration of an element, from behind its keyword on. -/
def elementDeclaration : Reading Unit := do
  someSpace (.spaceAfter "'ELEMENT'")
  let name ← name
  if name.isEmpty then fail .elementNameMissing
  someSpace (.spaceAfter "the element name")
  if ← accept "EMPTY".toList then pure ()
  else if ← accept "ANY".toList then pure ()
  else if ← accept ['('] then
    let _ ← spaces
    if ← accept "#PCDATA".toList then
      let _ ← spaces
      if ← accept [')'] then
        let _ ← accept ['*']
      else mixedNames (← remaining).length.succ
    else contentModel (← remaining).length.succ none
  else fail .elementContentExpected
  let _ ← spaces
  expect ['>'] .closeExpected
  if (← docType).elements.contains name then note (.elementRedeclared (String.ofList name))
  else declare fun d => { d with elements := name :: d.elements }

def alternatives (item : Reading Unit) (unfinished : Cause) : Nat → Reading Unit
  | 0 => fail unfinished
  | fuel + 1 => do
    let _ ← spaces
    item
    let _ ← spaces
    if ← accept ['|'] then alternatives item unfinished fuel
    else expect [')'] unfinished

def typeWords : List String :=
  ["CDATA", "IDREFS", "IDREF", "ID", "ENTITY", "ENTITIES", "NMTOKENS", "NMTOKEN"]

def oneOf : List String → Reading (Option String)
  | [] => return none
  | w :: ws => do if ← accept w.toList then return some w else oneOf ws

/-- The type of an attribute: whether it identifies elements, and whether it consists of tokens. -/
def attributeType : Reading (Bool × Bool) := do
  match ← oneOf typeWords with
  | some w => return (w == "ID", w != "CDATA")
  | none =>
    if ← accept "NOTATION".toList then
      someSpace (.spaceAfter "'NOTATION'")
      expect ['('] .notationNameMissing
      alternatives (do if (← name).isEmpty then fail .notationNameExpected) .notationNotFinished
        (← remaining).length.succ
    else
      expect ['('] .enumerationNotStarted
      alternatives (do if (← takeWhile isNameChar).isEmpty then fail .enumerationTokenExpected)
        .enumerationNotFinished (← remaining).length.succ
    return (false, true)

def defaultValue : Reading (Option (List Char)) := do
  if ← accept "#REQUIRED".toList then return none
  else if ← accept "#IMPLIED".toList then return none
  else
    if ← accept "#FIXED".toList then someSpace (.spaceAfter "'#FIXED'")
    return some (← value)

def attributeRules (element : List Char) : Nat → Reading Unit
  | 0 => fail .listAttributeMissing
  | fuel + 1 => do
    if ← accept ['>'] then return ()
    let name ← name
    if name.isEmpty then fail .listAttributeMissing
    someSpace (.spaceAfter "the attribute name")
    let (isId, isTokens) ← attributeType
    someSpace (.spaceAfter "the attribute type")
    let default ← defaultValue
    let default := default.map fun v => if isTokens then tokens v else v
    let atEnd := (← peek) == some '>'
    unless atEnd do someSpace (.spaceAfter "the attribute default value")
    let rules := (← docType).rules.filter fun r => r.element == element
    if rules.any fun r => r.name == name then
      note (.attributeRedeclared (String.ofList name) (String.ofList element))
    else if isId && rules.any (·.isId) then
      note (.secondIdAttribute (String.ofList name) (String.ofList element))
    declare fun d => { d with rules := d.rules ++ [{ element, name, isId, isTokens, default }] }
    attributeRules element fuel

def attributeList : Reading Unit := do
  someSpace (.spaceAfter "'<!ATTLIST'")
  let element ← name
  if element.isEmpty then fail .listElementMissing
  let _ ← spaces
  attributeRules element (← remaining).length.succ

/-- The declaration of a notation, from behind its keyword on. -/
def notationDeclaration : Reading Unit := do
  someSpace (.spaceAfter "'<!NOTATION'")
  let name ← name
  if name.isEmpty then fail .notationNameMissing
  if name.contains ':' then note (.notationNameWithColon (String.ofList name))
  someSpace (.spaceAfter "the NOTATION name'")
  let _ ← externalId true
  let _ ← spaces
  expect ['>'] .notationNotFinished
  if (← docType).notations.contains name then note (.notationRedeclared (String.ofList name))
  else declare fun d => { d with notations := name :: d.notations }

def markupDeclaration : Reading Unit := do
  if ← sees "<!--".toList then
    let _ ← comment
  else
    skip 2
    if ← accept "ENTITY".toList then entityDeclaration
    else if ← accept "ELEMENT".toList then elementDeclaration
    else if ← accept "ATTLIST".toList then attributeList
    else if ← accept "NOTATION".toList then notationDeclaration

def parameterReference : Reading (List Char) := do
  skip 1
  let name ← name
  if name.isEmpty then fail .parameterReferenceWithoutName
  expect [';'] .parameterReferenceNotClosed
  declare fun d => { d with hasParameterReferences := true }
  return name

/-- The declarations of a subset, up to a bracket or, in the text of a parameter, its end; `expand` reads
the text of a parameter. -/
def declarations (expand : List Char → Reading Unit) (inParameter : Bool) : Nat → Reading Unit
  | 0 => fail .subsetContent
  | fuel + 1 => do
    let _ ← spaces
    match ← remaining with
    | [] => if inParameter then return () else fail .subsetContent
    | '<' :: '!' :: _ =>
      markupDeclaration
      declarations expand inParameter fuel
    | '<' :: '?' :: _ =>
      let _ ← instruction
      declarations expand inParameter fuel
    | '%' :: _ =>
      let name ← parameterReference
      let d ← docType
      match d.parameters.find? fun e => e.name == name with
      | none => report (d.undeclared name)
      | some e =>
        match e.meaning with
        | .inside text => expandingName ('%' :: name) (inText text (expand text))
        | _ => pure ()
      declarations expand inParameter fuel
    | ']' :: _ => if inParameter then fail .subsetContent else return ()
    | _ => fail .subsetContent

def parameterContent : Nat → List Char → Reading Unit
  | 0, _ => fail .entityLoop
  | depth + 1, text => declarations (parameterContent depth) true text.length.succ

/-- The document type, from its opening on. -/
def documentType : Reading Piece := do
  skip 9
  someSpace .doctypeSpace
  let name ← name
  if name.isEmpty then fail .doctypeNameMissing
  let _ ← spaces
  let external ← externalId false
  declare fun d => { d with hasExternalSubset := external.isSome }
  let _ ← spaces
  if ← accept ['['] then
    declarations (parameterContent 40) false (← remaining).length.succ
    skip 1
    let _ ← spaces
  expect ['>'] .doctypeNotFinished
  return .text .doctype name

end MarkupIds.Xml.Reading
