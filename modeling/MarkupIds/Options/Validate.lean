import MarkupIds.Options.Basic
import MarkupIds.Value.Basic
import MarkupIds.Text.Lower
import MarkupIds.Text.Utf8

/-! Options from raw values: each field is normalised and checked, in a fixed order, and every
fault found is reported. -/

namespace MarkupIds

/-- What is wrong with a raw value. -/
inductive Fault where
  | notText
  | unreadableText
  | notStrategy
  | notFlag
  | unreadableFlag
  | notNames
  | attrNotPlain (given : String)
  | unknownKey
  | keyNotText
deriving DecidableEq, Repr

namespace Fault

/-- The fault in words. -/
def message : Fault → String
  | .notText => "Input should be a valid string"
  | .unreadableText =>
    "Input should be a valid string, unable to parse raw data as a unicode string"
  | .notStrategy => "Input should be 'hash', 'slug' or 'path'"
  | .notFlag => "Input should be a valid boolean"
  | .unreadableFlag => "Input should be a valid boolean, unable to interpret input"
  | .notNames => "Input should be a valid frozenset"
  | .attrNotPlain given =>
    "Value error, attr must be a plain attribute name, got " ++ Text.quoted given
  | .unknownKey => "Extra inputs are not permitted"
  | .keyNotText => "Keys should be strings"

end Fault

/-- A fault and the field it was found in. -/
structure Issue where
  field : String
  fault : Fault
deriving DecidableEq, Repr

namespace Options

/-- A value that has to be a text, or bytes that are one. -/
def textOf : Value → Except Fault String
  | .text s => .ok s
  | .garbled => .error .unreadableText
  | .bytes b =>
    match Text.decode b with
    | .ok s => .ok (String.ofList s)
    | .error _ => .error .unreadableText
  | _ => .error .notText

def attrOf (v : Value) : Except Fault { s : List Char // isAttrName s = true } :=
  match textOf v with
  | .error fault => .error fault
  | .ok s =>
    if h : isAttrName s.toList = true then .ok ⟨s.toList, h⟩ else .error (.attrNotPlain s)

/-- A strategy's word, in any case and with white space around it. -/
def strategyOf : Value → Except Fault Strategy
  | .text s =>
    match Strategy.ofName? (String.ofList (Text.trim (Text.lower s.toList))) with
    | some strategy => .ok strategy
    | none => .error .notStrategy
  | _ => .error .notStrategy

def flagOfInt (n : Int) : Except Fault Bool :=
  if n == 0 then .ok false else if n == 1 then .ok true else .error .unreadableFlag

def flagOfWord (s : String) : Except Fault Bool :=
  let word := Text.asciiLower s
  if ["0", "f", "n", "no", "off", "false"].contains word then .ok false
  else if ["1", "t", "y", "on", "yes", "true"].contains word then .ok true
  else .error .unreadableFlag

/-- A flag, or a number or word that stands for one. -/
def flagOf : Value → Except Fault Bool
  | .flag b => .ok b
  | .int n => flagOfInt n
  | .real x =>
    match x.toInt? with
    | some n => flagOfInt n
    | none => .error .notFlag
  | .text s => flagOfWord s
  | .garbled => .error .unreadableFlag
  | .bytes b =>
    match Text.decode b with
    | .ok s => flagOfWord (String.ofList s)
    | .error _ => .error .unreadableFlag
  | _ => .error .notFlag

def selectorOf : Value → Except Fault (Option String)
  | .null => .ok none
  | .text s => .ok (if Text.allBlank s.toList then none else some s)
  | v => (textOf v).map some

def trimmedNames (texts : List String) : List String :=
  (texts.map fun s => String.ofList (Text.trim s.toList)).filter (· != "")

def namesOf : Value → Except Fault (List String)
  | .text s =>
    .ok (nameSet (trimmedNames ((Text.splitWhere (· == ',') s.toList).map String.ofList)))
  | .list items | .set items => .ok (nameSet (trimmedNames (items.map Value.plain)))
  | _ => .error .notNames

def fieldNames : List String :=
  ["attr", "strategy", "prefix", "overwrite", "selector", "include", "exclude"]

/-- The field read by `read`, or its default where the record does not have it. -/
def field {α : Type} (entries : List (Value × Value)) (name : String) (default : α)
    (read : Value → Except Fault α) : Except Issue α :=
  match Value.entry? entries name with
  | none => .ok default
  | some v =>
    match read v with
    | .ok a => .ok a
    | .error fault => .error ⟨name, fault⟩

def issueOf {α : Type} : Except Issue α → List Issue
  | .ok _ => []
  | .error issue => [issue]

def extraIssue (key : Value) : Option Issue :=
  match key with
  | .text name => if fieldNames.contains name then none else some ⟨name, .unknownKey⟩
  | .int n => some ⟨toString n, .keyNotText⟩
  | .flag b => some ⟨if b then "1" else "0", .keyNotText⟩
  | other => some ⟨other.shown, .keyNotText⟩

/-- Options from the entries of a record, or every issue found: those of the fields in their order,
then those of the entries that are no fields. -/
def ofEntries (entries : List (Value × Value)) : Except (List Issue) Options :=
  let defaults : Options := {}
  let attr := field entries "attr" ⟨defaults.attr, defaults.attr_plain⟩ attrOf
  let strategy := field entries "strategy" defaults.strategy strategyOf
  let idPrefix := field entries "prefix" defaults.idPrefix textOf
  let overwrite := field entries "overwrite" defaults.overwrite flagOf
  let selector := field entries "selector" defaults.selector selectorOf
  let included := field entries "include" defaults.included namesOf
  let excluded := field entries "exclude" defaults.excluded namesOf
  let extras := entries.filterMap fun e => extraIssue e.1
  match attr, strategy, idPrefix, overwrite, selector, included, excluded, extras with
  | .ok attr, .ok strategy, .ok idPrefix, .ok overwrite, .ok selector, .ok included,
      .ok excluded, [] =>
    .ok { attr := attr.1, strategy, idPrefix, overwrite, selector, included, excluded,
          attr_plain := attr.2 }
  | _, _, _, _, _, _, _, _ =>
    .error (issueOf attr ++ issueOf strategy ++ issueOf idPrefix ++ issueOf overwrite ++
      issueOf selector ++ issueOf included ++ issueOf excluded ++ extras)

end Options

end MarkupIds
