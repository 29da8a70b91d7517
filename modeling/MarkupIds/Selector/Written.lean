import MarkupIds.Selector.Scope
import MarkupIds.Text.Direction
import MarkupIds.Text.Lower
import MarkupIds.Text.Blank

/-! How the text of an element is written: in which direction, and in a language of which range. A range names a
language with its subtags, where others may stand between them. -/

namespace MarkupIds.Selector

open MarkupIds.Markup (Node Place Tag)

inductive Declared where
  | leftToRight
  | rightToLeft
  | byContent
deriving DecidableEq, Repr

/-- What the attribute for the direction says, if it says anything. -/
def declared? (s : Scope) (t : Tag) : Option Declared :=
  let value := s.lowerValue t "dir"
  if value == "ltr" then some .leftToRight
  else if value == "rtl" then some .rightToLeft
  else if value == "auto" then some .byContent
  else none

def firstDirection? (s : List Char) : Option Bool := s.findSome? Text.writtenRightToLeft?

/-- The direction that the content of an element shows. Elements with a direction of their own, and
those whose content is no running text, are passed over. -/
def shownDirection? (s : Scope) : List Node → Option Bool
  | [] => none
  | .element tag children :: rest =>
    let skipped := ["bdi", "script", "style", "textarea", "iframe"].contains (s.nameOf tag) ||
      !s.isHtmlTag tag || (declared? s tag).isSome
    let inner := if skipped then none else shownDirection? s children
    match inner with
    | some direction => some direction
    | none => shownDirection? s rest
  | .text .plain content :: rest =>
    match firstDirection? content with
    | some direction => some direction
    | none => shownDirection? s rest
  | .text _ _ :: rest => shownDirection? s rest

/-- The direction of the first element of a chain in which each lies in the next: what it declares,
or else what its content shows or the next one has. -/
def directionIn (s : Scope) : List Place → Option Bool
  | [] => none
  | p :: rest =>
    let tag := p.tag
    if !s.isHtmlTag tag then none
    else
      let isRoot := s.isRoot p
      let isInput := s.nameOf tag == "input"
      let isTextarea := s.nameOf tag == "textarea"
      let type := if isInput then s.lowerValue tag "type" else ""
      let inherited := if isRoot then some false else directionIn s rest
      match declared? s tag with
      | some .leftToRight => some false
      | some .rightToLeft => some true
      | none =>
        if isRoot || (isInput && type == "tel") then some false
        else if s.nameOf tag == "bdi" then
          (shownDirection? s p.children).orElse fun _ => inherited
        else directionIn s rest
      | some .byContent =>
        let typed := isInput && ["text", "search", "tel", "url", "email"].contains type
        if typed || isTextarea then
          let value :=
            if isTextarea then (Node.ownTexts p.children).flatten
            else ((s.value? tag "value").getD "").toList
          if value.isEmpty then inherited else some ((firstDirection? value).getD false)
        else (shownDirection? s p.children).orElse fun _ => inherited

def writtenRightToLeft? (s : Scope) (p : Place) : Option Bool :=
  directionIn s (p :: s.ancestors true p)

namespace Language

/-- Stars between subtags, together with the hyphens around them, become one hyphen. `fuel` bounds
the number of stars. -/
def dropStars : List Char → List Char
  | '*' :: '-' :: s => dropStars s
  | ['*'] => []
  | s => s

def stripStars : Nat → List Char → List Char
  | 0, s => s
  | _, [] => []
  | _, ['-', '*'] => ['-']
  | fuel + 1, '-' :: '*' :: '-' :: s => '-' :: stripStars fuel (dropStars s)
  | fuel + 1, c :: s => c :: stripStars fuel s

def subtags (s : List Char) : List (List Char) := Text.splitWhere (· == '-') (Text.lower s)

/-- The subtags of a range are found among those of a language, in order; a single character is not
passed over. -/
def follows : List (List Char) → List (List Char) → Bool
  | [], _ => true
  | _ :: _, [] => false
  | r :: ranges, s :: tags =>
    if r.isEmpty then false
    else if s == r then follows ranges tags
    else if s.length == 1 then false
    else follows (r :: ranges) tags
termination_by _ tags => tags.length

def inRange (range language : String) : Bool :=
  let ranges := subtags (stripStars range.length range.toList)
  let tags := subtags language.toList
  match ranges, tags with
  | [[]], [[]] => true
  | r :: ranges, s :: tags =>
    if r == ['*'] then !(tags.isEmpty && s.isEmpty) && follows ranges tags
    else r == s && follows ranges tags
  | _, _ => false

end Language

end MarkupIds.Selector
