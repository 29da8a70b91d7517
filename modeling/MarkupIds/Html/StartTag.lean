import MarkupIds.Markup.Escape
import MarkupIds.Text.Cut
import MarkupIds.Text.Lower
import MarkupIds.Text.Blank

/-! Start tags as they are written: where one ends, and how an attribute is put into it. -/

namespace MarkupIds.Html

open MarkupIds.Text (isBlank isLetter)

/-- A start tag in three parts: the name, all that stands between it and the end, and the end with
the white space before it. -/
structure StartTag where
  name : List Char
  attributes : List Char
  tail : List Char
deriving DecidableEq, Repr

namespace StartTag

def text (t : StartTag) : List Char := '<' :: (t.name ++ t.attributes ++ t.tail)

def isNameChar (c : Char) : Bool := !(isBlank c || c == '/' || c == '>')

/-- The end of a start tag: white space, perhaps a slash, and the closing bracket. -/
def tail? (s : List Char) : Option (List Char) :=
  let (blanks, rest) := s.span isBlank
  match rest with
  | '>' :: _ => some (blanks ++ ['>'])
  | '/' :: '>' :: _ => some (blanks ++ ['/', '>'])
  | _ => none

def endOutside? (quote : Option Char) (s : List Char) : Option (List Char) :=
  if quote.isSome then none else tail? s

def quoteAfter (quote : Option Char) (c : Char) : Option Char :=
  match quote with
  | some q => if c == q then none else some q
  | none => if c == '"' || c == '\'' then some c else none

/-- What stands before the end of a start tag, and that end. Inside `quote` nothing ends it. -/
def splitTail (quote : Option Char) : List Char → Option (List Char × List Char)
  | [] => none
  | c :: s =>
    match endOutside? quote (c :: s) with
    | some tail => some ([], tail)
    | none => (splitTail (quoteAfter quote c) s).map fun r => (c :: r.1, r.2)

def read? (s : List Char) : Option StartTag :=
  match s with
  | '<' :: c :: r =>
    if isLetter c then
      let (name, rest) := r.span isNameChar
      (splitTail none rest).map fun (attributes, tail) => ⟨c :: name, attributes, tail⟩
    else none
  | _ => none

def isAttributeChar (c : Char) : Bool :=
  !(isBlank c || c == '"' || c == '\'' || c == '/' || c == '>' || c == '=')

/-- A value in quotes or without, and what follows it. -/
def value? (s : List Char) : Option (List Char) :=
  let bare : Option (List Char) :=
    let (value, rest) := s.span fun c => !(isBlank c || c == '>')
    if value.isEmpty then none else some rest
  match s with
  | '"' :: r => ((Text.cutAt ['"'] r).map (·.2)).orElse fun _ => bare
  | '\'' :: r => ((Text.cutAt ['\''] r).map (·.2)).orElse fun _ => bare
  | _ => bare

/-- An attribute at the start of a text, behind white space: its name, and what follows it and its
value. -/
def attribute? (s : List Char) : Option (List Char × List Char) :=
  let (name, rest) := (s.dropWhile isBlank).span isAttributeChar
  if name.isEmpty then none
  else
    match rest.dropWhile isBlank with
    | '=' :: r => some (name, (value? (r.dropWhile isBlank)).getD rest)
    | _ => some (name, rest)

/-- A text of attributes without those of a name, which is given in lower case. `fuel` bounds the
number of pieces. -/
def withoutFrom (target : List Char) : Nat → List Char → List Char
  | 0, s => s
  | _, [] => []
  | fuel + 1, c :: s =>
    match attribute? (c :: s) with
    | none => c :: withoutFrom target fuel s
    | some (name, rest) =>
      let kept := if Text.lower name == target then []
        else (c :: s).take ((c :: s).length - rest.length)
      kept ++ withoutFrom target fuel rest

def without (attr s : List Char) : List Char := withoutFrom (Text.lower attr) s.length s

def withId (t : StartTag) (overwrite : Bool) (attr id : List Char) : StartTag :=
  let kept := if overwrite then without attr t.attributes else t.attributes
  { t with attributes := kept ++ Markup.written attr (Markup.escape id) }

end StartTag

end MarkupIds.Html
