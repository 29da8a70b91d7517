import MarkupIds.Yaml.Node
import MarkupIds.Yaml.Number

/-! The value of a configuration text. Entries under the merge key come before the others, which
replace them. Collections are filled level by level, so of several faults the one nearest to the
root shows, and of those on one level the first. -/

namespace MarkupIds.Yaml

namespace Node

abbrev Built (α : Type) := Except (Nat × Fault) α

def onLevel {α : Type} (level : Nat) : Except Fault α → Built α
  | .ok a => .ok a
  | .error fault => .error (level, fault)

def both {α β : Type} (a : Built α) (b : Built β) : Built (α × β) :=
  match a, b with
  | .ok a, .ok b => .ok (a, b)
  | .error e, .ok _ => .error e
  | .ok _, .error e => .error e
  | .error d, .error e => .error (if e.1 < d.1 then e else d)

def kind : Node → Kind
  | .scalar kind _ _ => kind
  | .items kind _ => kind
  | .entries kind _ => kind

def keyKind (node : Node) : Kind := if node.kind == .whole then .text else node.kind

/-- The value of a scalar of a kind. -/
def scalarValue (kind : Kind) (text : List Char) (isBroken : Bool) : Except Fault Value :=
  match kind with
  | .null => .ok .null
  | .flag => (flagOf text).map .flag
  | .int => (wholeOf text).map .int
  | .real => (realOf text).map .real
  | .bytes => (bytesOf text).map .bytes
  | .moment =>
    let text := if text.getLast? == some '\n' then text.dropLast else text
    match Moment.parse? text with
    | none => .error .notMoment
    | some m =>
      match m.fault? with
      | some fault => .error (.badMoment fault)
      | none => .ok m.value
  | .text => .ok (if isBroken then .garbled else .text (String.ofList text))
  | _ => .error .malformed

def isScalarKind : Kind → Bool
  | .null | .flag | .int | .real | .bytes | .moment | .text => true
  | _ => false

def isKeyValue : Value → Bool
  | .list _ | .record _ | .set _ => false
  | _ => true

def recordOf (fields : List (Value × Value)) : List (Value × Value) :=
  fields.foldl (fun entries f => Value.putEntry entries f.1 f.2) []

/-- The value of a part that is a collection as a scalar: that of the entry for the whole. -/
def wholeText? : Node → Option (List Char × Bool)
  | .scalar _ text isBroken => some (text, isBroken)
  | .items _ _ => none
  | .entries _ fields => inFields fields
where
  inFields : List (Node × Node) → Option (List Char × Bool)
    | [] => none
    | (key, value) :: rest => if key.kind == .whole then wholeText? value else inFields rest

mutual

/-- The value of a part that stands on a level, read as `kind`. -/
def valueAs (kind : Kind) (level : Nat) : Node → Built Value
  | .scalar _ text isBroken => onLevel level (scalarValue kind text isBroken)
  | .items _ nodes =>
    match kind with
    | .items => (valuesOf (level + 1) nodes).map .list
    | .orderedPairs | .pairs => (pairsOf (level + 1) nodes).map .list
    | _ => onLevel level (.error .malformed)
  | .entries tag fields =>
    match kind with
    | .entries => (fieldsOf (level + 1) fields).map fun f => .record (recordOf (f.1 ++ f.2))
    | .set => (fieldsOf (level + 1) fields).map fun f =>
        .set ((recordOf (f.1 ++ f.2)).map (·.1))
    | _ =>
      if isScalarKind kind then
        match wholeText? (.entries tag fields) with
        | some (text, isBroken) => onLevel level (scalarValue kind text isBroken)
        | none => onLevel level (.error .malformed)
      else onLevel level (.error .malformed)

def valuesOf (level : Nat) : List Node → Built (List Value)
  | [] => .ok []
  | node :: rest =>
    (both (valueAs node.kind level node) (valuesOf level rest)).map fun (v, vs) => v :: vs

/-- The pairs that parts with one entry each stand for. -/
def pairsOf (level : Nat) : List Node → Built (List Value)
  | [] => .ok []
  | .entries _ [(key, value)] :: rest =>
    (both (both (valueAs key.kind level key) (valueAs value.kind level value))
      (pairsOf level rest)).map fun ((k, v), vs) => .pair k v :: vs
  | _ :: _ => onLevel level (.error .malformed)

/-- The entries of a collection: those merged into it, and its own. -/
def fieldsOf (level : Nat) :
    List (Node × Node) → Built (List (Value × Value) × List (Value × Value))
  | [] => .ok ([], [])
  | (key, value) :: rest =>
    if key.kind == .merge then
      (both (mergedOf level value) (fieldsOf level rest)).map fun (merged, more, own) =>
        (merged ++ more, own)
    else
      let k := (valueAs key.keyKind level key).bind fun k =>
        if isKeyValue k then .ok k else onLevel level (.error .malformed)
      (both (both k (valueAs value.kind level value)) (fieldsOf level rest)).map
        fun (field, merged, own) => (merged, field :: own)

/-- The entries that a part brings in under the merge key: its own, or those of its items, the last
item first. -/
def mergedOf (level : Nat) : Node → Built (List (Value × Value))
  | .entries _ fields => (fieldsOf level fields).map fun f => f.1 ++ f.2
  | .items _ nodes => mergedAll level nodes
  | .scalar .. => onLevel level (.error .malformed)

/-- The entries that several parts bring in under the merge key. -/
def mergedAll (level : Nat) : List Node → Built (List (Value × Value))
  | [] => .ok []
  | .entries _ fields :: rest =>
    (both (fieldsOf level fields) (mergedAll level rest)).map fun (f, more) => more ++ f.1 ++ f.2
  | _ :: _ => onLevel level (.error .malformed)

end

def value (node : Node) : Except Fault Value :=
  match valueAs node.kind 0 node with
  | .ok v => .ok v
  | .error (_, fault) => .error fault

end Node

/-- The value of a text; a text without a document has the value null. -/
def read (text : List Char) : Except Fault Value := do
  match ← Node.parse? text with
  | none => return .null
  | some node => node.value

end MarkupIds.Yaml
