import MarkupIds.Xml.Reading

/-! The declaration that may open a document: version, encoding and whether it stands alone. -/

namespace MarkupIds.Xml.Reading

open MarkupIds.Text (isLetter isDigit)

/-- An equals sign with white space around it, and the quote that follows. -/
def equalAndQuote : Reading Char := do
  let _ ← spaces
  expect ['='] .equalRequired
  let _ ← spaces
  match ← peek with
  | some c =>
    if c == '"' || c == '\'' then
      skip 1
      return c
    else fail .stringNotStarted
  | none => fail .stringNotStarted

/-- The number of a version: a digit, a point and digits. What does not start so is no number. -/
def versionNumber : Reading (List Char) := do
  match ← remaining with
  | a :: '.' :: _ =>
    if isDigit a then
      skip 2
      return a :: '.' :: (← takeWhile isDigit)
    else return []
  | a :: _ =>
    if isDigit a then skip 1
    return []
  | [] => return []

def version : Reading Unit := do
  let _ ← spaces
  unless ← accept "version".toList do fail .versionMissing
  let quote ← equalAndQuote
  let number ← versionNumber
  expect [quote] .stringNotClosed
  if number.isEmpty then fail .versionMissing
  else if number != "1.0".toList then
    if number.take 2 == ['1', '.'] then note (.unsupportedVersion (String.ofList number))
    else fail (.unsupportedVersion (String.ofList number))

def isEncodingChar (c : Char) : Bool :=
  isLetter c || isDigit c || c == '.' || c == '_' || c == '-'

/-- The encoding, if it is given. The name says nothing about the text, which has been decoded. -/
def encoding : Reading Bool := do
  let _ ← spaces
  if ← accept "encoding".toList then
    let quote ← equalAndQuote
    match ← peek with
    | some c => unless isLetter c do fail .badEncodingName
    | none => fail .badEncodingName
    let _ ← takeWhile isEncodingChar
    expect [quote] .stringNotClosed
    return true
  else return false

def standalone : Reading Unit := do
  let _ ← spaces
  if ← accept "standalone".toList then
    let quote ← equalAndQuote
    if ← accept ['y', 'e', 's'] then declare fun d => { d with standalone := true }
    else unless ← accept ['n', 'o'] do fail .badStandalone
    expect [quote] .stringNotClosed

def endOrSpace : Reading Bool := do
  match ← remaining with
  | '?' :: '>' :: _ => return true
  | c :: _ => if isSpace c then return false else fail .blankNeeded
  | [] => fail .blankNeeded

/-- The declaration, from its opening on. -/
def declaration : Reading Unit := do
  skip 5
  version
  unless ← endOrSpace do
    let encoded ← encoding
    let atEnd ← if encoded then endOrSpace else pure false
    unless atEnd do
      standalone
      let _ ← spaces
  expect ['?', '>'] .declarationNotFinished

end MarkupIds.Xml.Reading
