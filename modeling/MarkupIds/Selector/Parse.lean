import MarkupIds.Selector.Lexeme

/-! Selectors from their text. -/

namespace MarkupIds.Selector

/-- Conditions without argument that no element of a document at rest meets. -/
def neverMet : List String :=
  [":active", ":autofill", ":buffering", ":current", ":focus", ":focus-visible", ":focus-within",
   ":fullscreen", ":future", ":host", ":hover", ":local-link", ":modal", ":past", ":paused",
   ":picture-in-picture", ":playing", ":popover-open", ":seeking", ":stalled", ":target",
   ":target-within", ":user-invalid", ":visited", ":volume-locked"]

def neverMetWithArgument : List String := [":current", ":host", ":host-context"]

def withArgument : List String :=
  [":contains", ":-soup-contains", ":-soup-contains-own", ":has", ":is", ":matches", ":not",
   ":where"]

def withOwnForm : List String :=
  [":dir", ":lang", ":nth-child", ":nth-last-child", ":nth-last-of-type", ":nth-of-type"]

/-- Conditions on the place among siblings that are short for a count. -/
def shortCounts : List (String × List Condition) :=
  let one (fromEnd ofType : Bool) : Condition := .nth ⟨none, 1⟩ fromEnd ofType none
  [(":first-child", [one false false]), (":last-child", [one true false]),
   (":first-of-type", [one false true]), (":last-of-type", [one true true]),
   (":only-child", [one false false, one true false]),
   (":only-of-type", [one false true, one true true])]

def isKnown (name : String) : Bool :=
  (Named.words.lookup name).isSome || (shortCounts.lookup name).isSome || neverMet.contains name ||
    neverMetWithArgument.contains name || withArgument.contains name || withOwnForm.contains name

/-- How a list of alternatives is read. -/
structure Mode where
  opened : Bool := false
  relative : Bool := false
  negated : Bool := false
  forgiving : Bool := false

structure Draft where
  never : Bool := false
  conditions : List Condition := []
  texts : List TextTest := []

def Draft.compound (d : Draft) (relation : Option Relation) : Compound :=
  if d.never then .never else .all d.conditions d.texts relation

def Draft.add (d : Draft) (c : Condition) : Draft := { d with conditions := d.conditions ++ [c] }

/-- A list of alternatives being read. -/
structure Progress where
  alternatives : List Compound := []
  draft : Draft := {}
  started : Bool := false
  before : Option Relation := none
  chain : List (Combinator × Draft) := []
  leading : Combinator := .descendant
  htmlOnly : Bool := false

namespace Progress

def add (p : Progress) (c : Condition) : Progress :=
  { p with draft := p.draft.add c, started := true }

def chainRelation (after : Option Relation) : List (Combinator × Draft) → Option Relation
  | [] => after
  | (combinator, draft) :: rest =>
    chainRelation (some (.mk true combinator (draft.compound after))) rest

def closeAlternative (p : Progress) : Progress :=
  { p with
    alternatives := p.alternatives ++ [p.draft.compound p.before]
    draft := {}, started := false, before := none }

/-- The chain of a relative alternative, the compound being read counted in, is complete. -/
def closeChain (p : Progress) : Progress :=
  let relation := chainRelation none ((p.leading, p.draft) :: p.chain)
  { p with
    alternatives := p.alternatives ++ [.all [] [] relation]
    draft := {}, started := false, chain := [], leading := .descendant }

/-- A combinator or comma in a list of relative alternatives. -/
def relativeCombinator (p : Progress) (symbol : Char) (offset : Nat) : Except Fault Progress :=
  match Combinator.ofSymbol? symbol with
  | none =>
    if p.started then .ok p.closeChain
    else .error (.malformed (.danglingCombinator symbol) offset)
  | some combinator =>
    if p.started then
      .ok { p with chain := (p.leading, p.draft) :: p.chain, leading := combinator, draft := {},
                   started := false }
    else if p.leading != .descendant then .error (.malformed .multipleCombinators offset)
    else .ok { p with leading := combinator, draft := {}, started := false }

/-- A combinator or comma in another list. -/
def combinator (p : Progress) (mode : Mode) (symbol : Char) (offset : Nat) :
    Except Fault Progress :=
  match Combinator.ofSymbol? symbol, p.started with
  | none, true => .ok p.closeAlternative
  | none, false =>
    if mode.forgiving then
      .ok { p with draft := { p.draft with never := true }, before := none }.closeAlternative
    else .error (.malformed (.danglingCombinator symbol) offset)
  | some c, true =>
    .ok { p with before := some (.mk false c (p.draft.compound p.before)), draft := {},
                 started := false }
  | some _, false => .error (.malformed (.danglingCombinator symbol) offset)

/-- The finished list, where the last part ended at `offset`. -/
def finish (p : Progress) (mode : Mode) (offset : Nat) : Except Fault Choice :=
  let list (p : Progress) : Choice := .mk mode.negated p.htmlOnly p.alternatives
  if p.started then .ok (list (if mode.relative then p.closeChain else p.closeAlternative))
  else if mode.forgiving && (p.alternatives.isEmpty || p.before.isNone) then
    .ok (list { p with draft := { p.draft with never := true }, before := none }.closeAlternative)
  else .error (.malformed .selectorExpected offset)

/-- The state after a part that needs no further reading, where there is one. -/
def simple? (p : Progress) : Lexeme → Option Progress
  | .texts test => some { p with draft := { p.draft with texts := p.draft.texts ++ [test] },
                                 started := true }
  | .nthChild formula fromEnd false => some (p.add (.nth formula fromEnd false none))
  | .nthOfType formula fromEnd => some (p.add (.nth formula fromEnd true none))
  | .lang ranges => some (p.add (.lang ranges))
  | .direction rightToLeft => some { p.add (.direction rightToLeft) with htmlOnly := true }
  | .scope => some (p.add (.named .scope))
  | .id value => some (p.add (.id value))
  | .cls value => some (p.add (.cls value))
  | .attribute test inverted =>
    some (p.add (if inverted then
      .choice (.mk true false [.all [.attribute test] [] none]) else .attribute test))
  | .pseudo name false =>
    match Named.words.lookup name, shortCounts.lookup name with
    | some which, _ =>
      some { p.add (.named which) with htmlOnly := p.htmlOnly || which == .defined }
    | none, some counts => some (counts.foldl add p)
    | none, none =>
      if neverMet.contains name then
        some { p with draft := { p.draft with never := true }, started := true }
      else none
  | _ => none

end Progress

def argumentMode (name : String) : Mode :=
  { opened := true, relative := name == ":has", negated := name == ":not",
    forgiving := name == ":is" || name == ":where" }

/-- A list of alternatives from parts, the last of which ended at `offset`, and the parts that
follow it. `ending` is the fault that follows the last part, and `fuel` bounds the number of
parts. -/
def readChoice (ending : Option Fault) :
    Nat → Mode → Progress → Nat → List Placed → Except Fault (Choice × List Placed)
  | 0, mode, p, offset, parts => (p.finish mode offset).map (·, parts)
  | fuel + 1, mode, p, offset, parts =>
    match parts with
    | [] =>
      match ending with
      | some fault => .error fault
      | none =>
        if mode.opened then .error (.malformed .unclosed offset)
        else (p.finish mode offset).map (·, [])
    | part :: rest =>
      let goOn (p : Progress) (rest : List Placed) : Except Fault (Choice × List Placed) :=
        readChoice ending fuel mode p part.stop rest
      let withList (listMode : Mode) (use : Choice → Progress) :
          Except Fault (Choice × List Placed) :=
        match readChoice ending fuel listMode {} part.stop rest with
        | .ok (list, rest) => goOn (use list) rest
        | .error fault => .error fault
      match part.lexeme with
      | .atRule => .error (.unsupported .atRule part.start)
      | .pseudoElement => .error (.unsupported .pseudoElement part.start)
      | .custom name => .error (.malformed (.undefinedCustom name) part.stop)
      | .close =>
        if !p.started && !mode.forgiving then
          .error (.malformed .selectorExpected part.start)
        else if mode.opened then (p.finish mode offset).map (·, rest)
        else .error (.malformed .unmatchedClose part.start)
      | .combinator symbol =>
        let next := if mode.relative then p.relativeCombinator symbol offset
          else p.combinator mode symbol offset
        match next with
        | .ok p => goOn p rest
        | .error fault => .error fault
      | .tag nsPrefix name =>
        if p.started then .error (.malformed .misplacedTag part.start)
        else goOn (p.add (.tag nsPrefix name)) rest
      | .nthChild formula fromEnd true =>
        withList { opened := true } fun list => p.add (.nth formula fromEnd false (some list))
      | lexeme =>
        match p.simple? lexeme with
        | some p => goOn p rest
        | none =>
          match lexeme with
          | .pseudo name opens =>
            if opens && withArgument.contains name then
              withList (argumentMode name) fun list => p.add (.choice list)
            else if opens && neverMetWithArgument.contains name then
              withList { opened := true } fun _ =>
                { p with draft := { p.draft with never := true }, started := true }
            else if isKnown name then .error (.malformed (.invalidPseudoUse name) part.start)
            else .error (.malformed (.unknownPseudo name) part.start)
          | _ => goOn p rest

def parse (selector : String) : Except Fault Choice :=
  let lexed := lex (pattern selector)
  (readChoice lexed.fault (lexed.parts.length + 1) {} {} 0 lexed.parts).map (·.1)

end MarkupIds.Selector
