import MarkupIds.Markup.Escape
import MarkupIds.Text.Blank
import MarkupIds.Text.Cut

/-! The tokens of an XML text: start tags, taken apart, end tags, and all else as it is. Nothing is
lost: the texts of the tokens, one after another, are the text. -/

namespace MarkupIds.Xml

open MarkupIds.Text (isBlank after? cutAt)

/-- An attribute as it is written, behind the white space before it. -/
structure WrittenAttribute where
  lead : List Char
  name : List Char
  link : List Char
  quote : Char
  value : List Char
deriving DecidableEq, Repr

namespace WrittenAttribute

def text (a : WrittenAttribute) : List Char :=
  a.lead ++ a.name ++ a.link ++ a.quote :: (a.value ++ [a.quote])

def isNameChar (c : Char) : Bool := !(isBlank c || c == '=' || c == '/' || c == '>')

/-- The attribute at the start of a text, and what follows it. -/
def read? (s : List Char) : Option (WrittenAttribute × List Char) :=
  let (lead, r) := s.span isBlank
  let (name, r) := r.span isNameChar
  let (before, r) := r.span isBlank
  if lead.isEmpty || name.isEmpty then none
  else
    match r with
    | '=' :: r =>
      let (behind, r) := r.span isBlank
      match r with
      | quote :: r =>
        if quote == '"' || quote == '\'' then
          (cutAt [quote] r).map fun (value, rest) =>
            (⟨lead, name, before ++ '=' :: behind, quote, value⟩, rest)
        else none
      | [] => none
    | _ => none

end WrittenAttribute

/-- A start tag as it is written; the tail is its end, with the white space before it. -/
structure StartTag where
  name : List Char
  attributes : List WrittenAttribute
  tail : List Char
deriving DecidableEq, Repr

namespace StartTag

def text (t : StartTag) : List Char :=
  '<' :: (t.name ++ t.attributes.flatMap WrittenAttribute.text ++ t.tail)

def isEmptyElement (t : StartTag) : Bool := t.tail.contains '/'

def isNameChar (c : Char) : Bool :=
  !(isBlank c || c == '/' || c == '>' || c == '!' || c == '?')

/-- The attributes at the start of a text, at most `fuel` of them, and what follows them. -/
def readAttributes : Nat → List Char → List WrittenAttribute × List Char
  | 0, s => ([], s)
  | fuel + 1, s =>
    match WrittenAttribute.read? s with
    | none => ([], s)
    | some (a, rest) =>
      let (others, rest) := readAttributes fuel rest
      (a :: others, rest)

def readTail? (s : List Char) : Option (List Char × List Char) :=
  let (blanks, r) := s.span isBlank
  match r with
  | '>' :: rest => some (blanks ++ ['>'], rest)
  | '/' :: '>' :: rest => some (blanks ++ ['/', '>'], rest)
  | _ => none

/-- The start tag at the start of a text, and what follows it. -/
def read? (s : List Char) : Option (StartTag × List Char) :=
  match s with
  | '<' :: r =>
    let (name, r) := r.span isNameChar
    if name.isEmpty then none
    else
      let (attributes, r) := readAttributes r.length r
      (readTail? r).map fun (tail, rest) => (⟨name, attributes, tail⟩, rest)
  | _ => none

/-- The tag with an attribute for the id before its end, in place of those of the same name where
they are overwritten. -/
def withId (t : StartTag) (overwrite : Bool) (attr id : List Char) : StartTag :=
  let kept := if overwrite then t.attributes.filter fun a => a.name != attr else t.attributes
  { t with attributes := kept ++ [⟨[' '], attr, ['='], '"', Markup.escape id⟩] }

end StartTag

inductive Token where
  | opening (tag : StartTag)
  | closing (raw : List Char)
  | other (raw : List Char)
deriving DecidableEq, Repr

namespace Token

def text : Token → List Char
  | opening tag => tag.text
  | closing raw => raw
  | other raw => raw

/-- How far the search for the end of a document type has come. -/
inductive Stage where
  | outside
  | quoted (quote : Char)
  | bracketed
deriving DecidableEq, Repr

/-- What follows a document type: it ends at the first closing bracket outside of quotes and square
brackets. Square brackets end at the first one from which on such an end is found. -/
def afterType (stage : Stage) : List Char → Option (List Char)
  | [] => none
  | c :: s =>
    match stage with
    | .quoted quote => afterType (if c == quote then .outside else stage) s
    | .bracketed =>
      if c == ']' then (afterType .outside s).orElse fun _ => afterType .bracketed s
      else afterType .bracketed s
    | .outside =>
      if c == '>' then some s
      else if c == '"' || c == '\'' then afterType (.quoted c) s
      else if c == '[' then afterType .bracketed s
      else afterType .outside s

def afterEndTag (s : List Char) : Option (List Char) :=
  match s with
  | '<' :: '/' :: r =>
    let (name, r) := r.span fun c => !(isBlank c || c == '>')
    match r.dropWhile isBlank with
    | '>' :: rest => if name.isEmpty then none else some rest
    | _ => none
  | _ => none

def afterBetween (start stop s : List Char) : Option (List Char) :=
  (after? start s).bind fun r => (cutAt stop r).map (·.2)

def before (s rest : List Char) : List Char := s.take (s.length - rest.length)

def afterOther (s : List Char) : Option (List Char) :=
  (afterBetween "<!--".toList "-->".toList s).orElse fun _ =>
    (afterBetween "<![CDATA[".toList "]]>".toList s).orElse fun _ =>
      (afterBetween "<?".toList "?>".toList s).orElse fun _ =>
        (after? "<!DOCTYPE".toList s).bind (afterType .outside)

/-- The token at the start of a text, and what follows it. -/
def read? (s : List Char) : Option (Token × List Char) :=
  match s with
  | [] => none
  | '<' :: _ =>
    match afterOther s with
    | some rest => some (.other (before s rest), rest)
    | none =>
      match afterEndTag s with
      | some rest => some (.closing (before s rest), rest)
      | none => (StartTag.read? s).map fun (tag, rest) => (.opening tag, rest)
  | _ =>
    let (text, rest) := s.span (· != '<')
    some (.other text, rest)

/-- At most `fuel` tokens from the start of a text on, and what follows them. -/
def listFrom : Nat → List Char → List Token × List Char
  | 0, s => ([], s)
  | fuel + 1, s =>
    match read? s with
    | none => ([], s)
    | some (token, rest) =>
      let (others, rest) := listFrom fuel rest
      (token :: others, rest)

def list (s : List Char) : List Token × List Char := listFrom s.length s

end Token

end MarkupIds.Xml
