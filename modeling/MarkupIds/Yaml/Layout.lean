import MarkupIds.Yaml.Token

/-! The words of a text with its indentation made explicit. A block opens where a dash or a key stands
further in than the block around it, and closes where a line stands further out. Whether a word is a
key shows only at the colon after it, so a mark is left at each place where a key may start, and the
marks are replaced at the end. -/

namespace MarkupIds.Yaml

/-- A word, or the mark of a place where a key may start. -/
inductive Entry where
  | token (t : Token)
  | mark (n : Nat)

/-- A place where a key may start. -/
structure KeyPlace where
  mark : Nat
  line : Nat
  column : Nat
  isRequired : Bool

/-- The state of a reading. -/
structure Layout where
  cursor : Cursor
  blocks : List Nat := []
  key : Option KeyPlace := none
  flowKeys : List (Option KeyPlace) := []
  mayStartKey : Bool := true
  marks : Nat := 0
  entries : List Entry := []
  keys : List (Nat × Bool) := []

namespace Layout

def inFlow (l : Layout) : Bool := !l.flowKeys.isEmpty

/-- The least column of a line that belongs to the innermost block. -/
def indent (l : Layout) : Nat :=
  match l.blocks with
  | [] => 0
  | column :: _ => column + 1

def push (t : Token) (l : Layout) : Layout := { l with entries := .token t :: l.entries }

def next (l : Layout) : Layout := { l with cursor := l.cursor.next }

/-- The place where a key may start, at the present depth of brackets. -/
def keyHere (l : Layout) : Option KeyPlace :=
  match l.flowKeys with
  | [] => l.key
  | k :: _ => k

/-- The same layout with another place where a key may start. -/
def setKey (k : Option KeyPlace) (l : Layout) : Layout :=
  match l.flowKeys with
  | [] => { l with key := k }
  | _ :: outer => { l with flowKeys := k :: outer }

def forgotten (k : Option KeyPlace) : Except Fault (Option KeyPlace) :=
  match k with
  | some k => if k.isRequired then .error .malformed else .ok none
  | none => .ok none

def forgetKey (l : Layout) : Except Fault Layout := do
  return l.setKey (← forgotten l.keyHere)

/-- A place is kept while it is on the line reached and not too far back. -/
def kept (c : Cursor) (k : Option KeyPlace) : Except Fault (Option KeyPlace) :=
  match k with
  | some place =>
    if place.line == c.line && c.column ≤ place.column + 1024 then .ok k else forgotten k
  | none => .ok none

def dropFarKeys (l : Layout) : Except Fault Layout := do
  return { l with key := ← kept l.cursor l.key, flowKeys := ← l.flowKeys.mapM (kept l.cursor) }

/-- A mark, if a key may start here. -/
def markKey (l : Layout) : Except Fault Layout := do
  if !l.mayStartKey then return l
  let l ← l.forgetKey
  let place : KeyPlace :=
    { mark := l.marks
      line := l.cursor.line
      column := l.cursor.column
      isRequired := !l.inFlow && l.blocks.head? == some l.cursor.column }
  return { l.setKey (some place) with
    marks := l.marks + 1, entries := .mark l.marks :: l.entries }

/-- The blocks that stand further in than `column` are closed; with no column all are. -/
def closeBlocks (column : Option Nat) (l : Layout) : Layout :=
  if l.inFlow then l
  else
    let isInner (block : Nat) : Bool :=
      match column with
      | some column => column < block
      | none => true
    let closed := l.blocks.takeWhile isInner
    { l with
      blocks := l.blocks.drop closed.length
      entries := closed.map (fun _ => Entry.token .blockClose) ++ l.entries }

/-- A block opens at `column`, if that is further in than the innermost one. -/
def opensAt (column : Nat) (l : Layout) : Bool := l.indent ≤ column

/-- The blanks, comments and line ends from here on are passed over. -/
def skipBlanks : Nat → Layout → Layout
  | 0, l => l
  | fuel + 1, l =>
    let c := l.cursor.skipWhile (· == ' ')
    let c := if c.rest.head? == some '#' then c.skipWhile (fun x => !isBreak x) else c
    match c.takeBreak? with
    | some (_, c) => skipBlanks fuel { l with cursor := c, mayStartKey := l.mayStartKey || !l.inFlow }
    | none => { l with cursor := c }

def pushKeyable (t : Token) (c : Cursor) (isFresh : Bool) (l : Layout) : Layout :=
  { l with cursor := c, mayStartKey := isFresh }.push t

def documentMark (t : Token) (l : Layout) : Except Fault Layout := do
  let l ← (l.closeBlocks none).forgetKey
  return { l with cursor := l.cursor.skip 3, mayStartKey := false }.push t

def directiveLine (l : Layout) : Except Fault Layout := do
  let l ← (l.closeBlocks none).forgetKey
  let (d, c) ← directive l.cursor
  return { l with cursor := c, mayStartKey := false }.push (.directive d)

def openFlow (shape : Shape) (l : Layout) : Except Fault Layout := do
  let l ← l.markKey
  return { l with flowKeys := none :: l.flowKeys, mayStartKey := true }.next.push (.flowOpen shape)

def closeFlow (shape : Shape) (l : Layout) : Except Fault Layout := do
  let l ← l.forgetKey
  match l.flowKeys with
  | [] => .error .malformed
  | _ :: outer =>
    return { l with flowKeys := outer, mayStartKey := false }.next.push (.flowClose shape)

/-- A block of a shape opens here, if this is further in than the innermost one. -/
def openBlock (shape : Shape) (l : Layout) : Layout :=
  if l.opensAt l.cursor.column then
    { l with blocks := l.cursor.column :: l.blocks }.push (.blockOpen shape)
  else l

def separator (t : Token) (mayStartKey : Bool) (l : Layout) : Except Fault Layout := do
  let l ← l.forgetKey
  return { l with mayStartKey }.next.push t

/-- A dash or a question mark: outside brackets it may open a block. -/
def blockMark (t : Token) (shape : Shape) (mayStartKey : Bool) (l : Layout) :
    Except Fault Layout :=
  if l.inFlow then l.separator t mayStartKey
  else if l.mayStartKey then (l.openBlock shape).separator t mayStartKey
  else .error .malformed

/-- A colon. What stands between the last mark and here is the key; without a mark the key has been
given on its own or is missing. -/
def colon (l : Layout) : Except Fault Layout := do
  match l.keyHere with
  | some place =>
    let opens := !l.inFlow && l.opensAt place.column
    let blocks := if opens then place.column :: l.blocks else l.blocks
    return { l.setKey none with
      blocks, keys := (place.mark, opens) :: l.keys, mayStartKey := false }.next.push .value
  | none => l.blockMark .value .entries (!l.inFlow)

def block (isFolded : Bool) (l : Layout) : Except Fault Layout := do
  let l ← l.forgetKey
  let s ← blockScalar isFolded (max 1 l.indent) l.cursor
  return { l with cursor := s.cursor, mayStartKey := true }.push (.scalar s.text false false)

def quoted (quote : Char) (l : Layout) : Except Fault Layout := do
  let l ← l.markKey
  let s ← quotedScalar quote l.cursor
  return l.pushKeyable (.scalar s.text false s.isBroken) s.cursor false

def plain (l : Layout) : Except Fault Layout := do
  let l ← l.markKey
  let s := plainScalar l.inFlow l.indent l.cursor
  return l.pushKeyable (.scalar s.text true false) s.cursor s.isFresh

def named (token : List Char → Token) (l : Layout) : Except Fault Layout := do
  let l ← l.markKey
  let (name, c) ← anchorName l.cursor
  return l.pushKeyable (token name) c false

def typed (l : Layout) : Except Fault Layout := do
  let l ← l.markKey
  let (word, c) ← typeWord l.cursor
  return l.pushKeyable (.type word) c false

/-- A plain scalar may start with this text. -/
def startsPlain (inFlow : Bool) : List Char → Bool
  | [] => false
  | c :: rest =>
    !(isGap c || isBreak c || "-?:,[]\x7b\x7d#&*!|>'\"%@`".toList.contains c) ||
      (!wordEnds rest && (c == '-' || (!inFlow && (c == '?' || c == ':'))))

/-- The word that starts with `c`, which `rest` follows. -/
def word (c : Char) (rest : List Char) (l : Layout) : Except Fault Layout :=
  if c == '%' && l.cursor.column == 0 then l.directiveLine
  else if l.cursor.atStartMark then l.documentMark .documentStart
  else if l.cursor.atEndMark then l.documentMark .documentEnd
  else if c == '[' then l.openFlow .items
  else if c == '\x7b' then l.openFlow .entries
  else if c == ']' then l.closeFlow .items
  else if c == '\x7d' then l.closeFlow .entries
  else if c == ',' then l.separator .comma true
  else if c == '-' && wordEnds rest then l.blockMark .dash .items true
  else if c == '?' && (l.inFlow || wordEnds rest) then l.blockMark .key .entries (!l.inFlow)
  else if c == ':' && (l.inFlow || wordEnds rest) then l.colon
  else if c == '*' then l.named .alias
  else if c == '&' then l.named .anchor
  else if c == '!' then l.typed
  else if c == '|' && !l.inFlow then l.block false
  else if c == '>' && !l.inFlow then l.block true
  else if c == '\'' || c == '"' then l.quoted c
  else if startsPlain l.inFlow l.cursor.rest then l.plain
  else .error .malformed

/-- The words from here on. -/
def run : Nat → Layout → Except Fault Layout
  | 0, _ => .error .malformed
  | fuel + 1, l => do
    let l ← (l.skipBlanks (l.cursor.rest.length + 1)).dropFarKeys
    let l := l.closeBlocks (some l.cursor.column)
    match l.cursor.rest with
    | [] => (l.closeBlocks none).forgetKey
    | c :: rest => run fuel (← l.word c rest)

def resolved (keys : List (Nat × Bool)) : Entry → List Token
  | .token t => [t]
  | .mark n =>
    match keys.find? fun k => k.1 == n with
    | some (_, opens) => if opens then [.blockOpen .entries, .key] else [.key]
    | none => []

def tokens (l : Layout) : List Token := l.entries.reverse.flatMap (resolved l.keys)

end Layout

def Token.list (text : List Char) : Except Fault (List Token) :=
  if !text.all isAllowed then .error .malformed
  else
    let text := if text.head? == some '\uFEFF' then text.drop 1 else text
    (Layout.run (text.length + 1) { cursor := { rest := text } }).map Layout.tokens

end MarkupIds.Yaml
