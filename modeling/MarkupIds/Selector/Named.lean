import MarkupIds.Selector.Basic
import MarkupIds.Selector.Scope
import MarkupIds.Selector.Quantity

/-! The conditions that have a name and no argument. -/

namespace MarkupIds.Selector

open MarkupIds.Markup (Node Place Tag)

namespace Scope

def isOneOf (s : Scope) (t : Tag) (names : List String) : Bool := names.contains (s.nameOf t)

def has (s : Scope) (t : Tag) (name : String) : Bool := (s.value? t name).isSome

def typeIs (s : Scope) (t : Tag) (types : List String) : Bool :=
  match s.value? t "type" with
  | some value =>
    types.any fun type => [type, type ++ "\n"].contains (if s.isXml then value else Text.asciiLower value)
  | none => false

def isBlankValue (s : Scope) (t : Tag) (name : String) : Bool :=
  (s.value? t name).any fun value => value == "" || value == "\n"

def textOf (s : Scope) (bounded : Bool) (p : Place) : List Char :=
  if bounded && s.isFrame p.tag then []
  else (Node.textPieces (fun t => bounded && s.isFrame t) p.children).flatten

def isSubstance : Node → Bool
  | .element .. => true
  | .text .plain content => !Text.allBlank content
  | .text .cdata _ => true
  | .text _ _ => false

/-- The element is the root, and nothing but comments and the like stands beside it. -/
def isLoneRoot (s : Scope) (p : Place) : Bool :=
  s.isRoot p && !(p.before.any isSubstance) && !(p.after.any isSubstance)

/-- The element has no content but comments and the like and white space. -/
def isEmpty (s : Scope) (p : Place) : Bool :=
  (s.isHtml && s.isFrame p.tag) || p.children.all fun
    | .element .. => false
    | .text .plain content => content.all isSpace
    | .text _ _ => true

def isDefined (s : Scope) (t : Tag) : Bool :=
  !(s.nameOf t).contains '-' || (s.nameOf t).contains ':' || t.nsPrefix.isSome

def isControl (s : Scope) (t : Tag) : Bool :=
  (s.isOneOf t ["input"] && !s.typeIs t ["hidden"]) ||
    s.isOneOf t ["button", "select", "textarea", "fieldset"]

def isChecked (s : Scope) (t : Tag) : Bool :=
  s.isHtmlTag t &&
    ((s.isOneOf t ["input"] && s.typeIs t ["checkbox", "radio"] && s.has t "checked") ||
      (s.isOneOf t ["option"] && s.has t "selected"))

def isFirstOfType (s : Scope) (p : Place) : Bool :=
  p.earlier.all fun q => !(s.nameOf q.tag == s.nameOf p.tag && s.uriOf q.tag == s.uriOf p.tag)

/-- The control is switched off: by itself, by its group, or by a set of fields that it is in,
outside the first legend. -/
def isDisabled (s : Scope) (p : Place) : Bool :=
  let t := p.tag
  let off (q : Place) (name : String) : Bool :=
    s.isHtmlTag q.tag && s.isOneOf q.tag [name] && s.has q.tag "disabled"
  let chain := s.ancestors true p
  let inSet (pair : Place × Place) : Bool :=
    off pair.2 "fieldset" && s.isHtmlTag pair.1.tag &&
      !(s.isOneOf pair.1.tag ["legend"] && s.isFirstOfType pair.1)
  s.isHtmlTag t &&
    (((s.isControl t || s.isOneOf t ["optgroup", "option"]) && s.has t "disabled") ||
      (s.isOneOf t ["option"] && (chain.head?).any fun q => off q "optgroup") ||
      (s.isControl t && (chain.head?).any fun q => off q "fieldset") ||
      (s.isControl t && (chain.zip (chain.drop 1)).any inSet))

def isEnabled (s : Scope) (p : Place) : Bool :=
  s.isHtmlTag p.tag && (s.isControl p.tag || s.isOneOf p.tag ["optgroup", "option"]) &&
    !s.isDisabled p

def isField (s : Scope) (t : Tag) : Bool :=
  s.isHtmlTag t && s.isOneOf t ["input", "select", "textarea"]

def formOf? (s : Scope) (p : Place) : Option Place :=
  (s.ancestors true p).find? fun q => s.nameOf q.tag == "form" && s.isHtmlTag q.tag

/-- The element submits its form and is the first one that does. -/
def isDefaultButton (s : Scope) (p : Place) : Bool :=
  s.isHtmlTag p.tag && s.isOneOf p.tag ["button", "input"] && s.typeIs p.tag ["submit"] &&
    match s.formOf? p with
    | none => false
    | some form =>
      let ownPart := (s.inside true form).takeWhile fun q => s.nameOf q.tag != "form"
      let first := ownPart.find? fun q =>
        s.isOneOf q.tag ["input", "button"] && s.lowerValue q.tag "type" == "submit"
      first.any p.same

/-- What groups radio buttons: their form, or else the outermost element. -/
def groupOf (s : Scope) (p : Place) : Option Place :=
  (s.formOf? p).orElse fun _ => (s.ancestors true p).getLast?

/-- No radio button of the group is ticked. -/
def isUndecided (s : Scope) (p : Place) : Bool :=
  match s.groupOf p with
  | none => false
  | some group =>
    let name := s.value? p.tag "name"
    let ticked (q : Place) : Bool :=
      !q.same p && s.nameOf q.tag == "input" &&
        q.tag.attributes.any (fun a =>
          Text.asciiLower a.name == "type" && Text.asciiLower a.value == "radio") &&
        q.tag.attributes.any (fun a => Text.asciiLower a.name == "name" && some a.value == name) &&
        q.tag.attributes.any (fun a => Text.asciiLower a.name == "checked") &&
        (s.groupOf q).any group.same
    !(s.inside true group).any ticked

/-- The element shows neither of its two states. -/
def isIndeterminate (s : Scope) (p : Place) : Bool :=
  let t := p.tag
  let radio := s.isOneOf t ["input"] && s.typeIs t ["radio"]
  let nameless := !s.has t "name" || s.isBlankValue t "name"
  s.isHtmlTag t &&
    ((s.isOneOf t ["input"] && s.typeIs t ["checkbox"] && s.has t "indeterminate") ||
      (radio && nameless && !s.has t "checked") ||
      (s.isOneOf t ["progress"] && !s.has t "value") ||
      (radio && !nameless && !s.has t "checked" && s.isUndecided p))

def isBounded (s : Scope) (t : Tag) : Bool :=
  s.isHtmlTag t && s.isOneOf t ["input"] &&
    s.typeIs t ["date", "month", "week", "time", "datetime-local", "number", "range"] &&
    (s.has t "min" || s.has t "max")

/-- Whether the value of a bounded field lies outside its bounds, if a bound can be read. -/
def isOutside? (s : Scope) (t : Tag) : Option Bool :=
  if !s.isBounded t then none
  else
    let type := s.lowerValue t "type"
    let read (name : String) : Option Quantity :=
      (s.value? t name).bind fun value => Quantity.read? type value.toList
    let low := read "min"
    let high := read "max"
    if low.isNone && high.isNone then none
    else some ((read "value").any (Quantity.outside type low high))

/-- The field shows a hint in place of a value. -/
def showsPlaceholder (s : Scope) (p : Place) : Bool :=
  let t := p.tag
  let hinted := s.has t "placeholder" && !s.isBlankValue t "placeholder"
  let typed := !s.has t "type" ||
    s.typeIs t ["", "text", "search", "url", "tel", "email", "password", "number"]
  s.isHtmlTag t && hinted &&
    ((s.isOneOf t ["input"] && typed && (!s.has t "value" || s.isBlankValue t "value")) ||
      (s.isOneOf t ["textarea"] && [[], ['\n']].contains (s.textOf false p)))

/-- The element's content can be changed by a user. -/
def isWritable (s : Scope) (p : Place) : Bool :=
  let t := p.tag
  let typed := !s.has t "type" ||
    s.typeIs t ["", "date", "datetime-local", "email", "month", "number", "password", "search",
      "tel", "text", "time", "url", "week"]
  let editable := (s.value? t "contenteditable").any fun value =>
    ["", "\n", "true", "true\n"].contains (Text.asciiLower value)
  s.isHtmlTag t &&
    (((s.isOneOf t ["textarea"] || (s.isOneOf t ["input"] && typed)) && !s.has t "readonly" &&
        !s.isDisabled p) || editable)

/-- The named condition is met. -/
def meets (s : Scope) (p : Place) (which : Named) : Bool :=
  let bounded : Scope := { s with inHtml := true }
  match which with
  | .root => s.isLoneRoot p
  | .scope => s.root.any p.same
  | .empty => s.isEmpty p
  | .defined => s.isDefined p.tag
  | other =>
    s.isHtml &&
      match other with
      | .link => s.isHtmlTag p.tag && s.isOneOf p.tag ["a", "area"] && s.has p.tag "href"
      | .checked => s.isChecked p.tag
      | .default => s.isChecked p.tag || bounded.isDefaultButton p
      | .indeterminate => bounded.isIndeterminate p
      | .disabled => bounded.isDisabled p
      | .enabled => bounded.isEnabled p
      | .required => s.isField p.tag && s.has p.tag "required"
      | .optional => s.isField p.tag && !s.has p.tag "required"
      | .readOnly => s.isHtmlTag p.tag && !bounded.isWritable p
      | .readWrite => bounded.isWritable p
      | .inRange => s.isOutside? p.tag == some false
      | .outOfRange => s.isOutside? p.tag == some true
      | .placeholderShown => s.showsPlaceholder p
      | .opened =>
        s.isHtmlTag p.tag && s.isOneOf p.tag ["details", "dialog"] && s.has p.tag "open"
      | .muted => s.isHtmlTag p.tag && s.isOneOf p.tag ["video", "audio"] && s.has p.tag "muted"
      | _ => false

end Scope

end MarkupIds.Selector
