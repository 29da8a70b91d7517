import MarkupIds.Yaml.Cursor
import MarkupIds.Yaml.Fault

/-! Scalars: texts that are written plainly, between quotes, or as a block of indented lines. A single
line end inside a plain or quoted scalar stands for a space, and of several the first is dropped. -/

namespace MarkupIds.Yaml

/-- Line ends that follow one another, with nothing but blanks between them. -/
structure BlankLines where
  breaks : List Char
  widest : Nat
  cursor : Cursor

/-- The blank lines from here on, where `blanks` passes over the blanks of a line. -/
def blankLinesFrom (blanks : Cursor → Cursor) : Nat → Cursor → BlankLines
  | 0, c => ⟨[], 0, c⟩
  | fuel + 1, c =>
    let c := blanks c
    match c.takeBreak? with
    | none => ⟨[], c.column, c⟩
    | some (b, after) =>
      let lines := blankLinesFrom blanks fuel after
      ⟨b :: lines.breaks, max c.column lines.widest, lines.cursor⟩

def blankLines (blanks : Cursor → Cursor) (c : Cursor) : BlankLines :=
  blankLinesFrom blanks (c.rest.length + 1) c

def folded (first : Char) (breaks : List Char) : List Char :=
  if first != '\n' then first :: breaks else if breaks.isEmpty then [' '] else breaks

/-- The text of a scalar and the place after it. -/
structure Scalar where
  text : List Char
  cursor : Cursor
  isFresh : Bool := false
  isBroken : Bool := false

/-! ### Plain scalars -/

def isFlowChar (c : Char) : Bool := c == ',' || c == '[' || c == ']' || c == '\x7b' || c == '\x7d'

def plainRun (inFlow : Bool) : List Char → List Char
  | [] => []
  | c :: rest =>
    if isGap c || isBreak c then []
    else if c == ':' && (wordEnds rest || (inFlow && endsOr isFlowChar rest)) then []
    else if inFlow && (isFlowChar c || c == '?') then []
    else c :: plainRun inFlow rest

/-- What stands between two runs of a plain scalar: nothing if the scalar cannot go on. -/
def plainGap (c : Cursor) : Scalar :=
  let spaces := c.run (· == ' ')
  let c := c.skip spaces.length
  match c.takeBreak? with
  | none => { text := spaces, cursor := c }
  | some (first, c) =>
    let lines := blankLines (Cursor.skipWhile (· == ' ')) c
    { text := if lines.cursor.atAnyMark then [] else folded first lines.breaks
      cursor := lines.cursor
      isFresh := true }

/-- The rest of a plain scalar, which goes on after `gap` if a run follows. -/
def plainFrom (inFlow : Bool) (indent : Nat) : Nat → Scalar → Scalar
  | 0, gap => { gap with text := [] }
  | fuel + 1, gap =>
    let run := if gap.cursor.rest.head? == some '#' then [] else plainRun inFlow gap.cursor.rest
    if run.isEmpty then { gap with text := [] }
    else
      let after := plainGap (gap.cursor.skip run.length)
      if after.text.isEmpty || (!inFlow && after.cursor.column < indent) then
        { after with text := gap.text ++ run }
      else
        let more := plainFrom inFlow indent fuel after
        { more with text := gap.text ++ run ++ more.text }

def plainScalar (inFlow : Bool) (indent : Nat) (c : Cursor) : Scalar :=
  plainFrom inFlow indent (c.rest.length + 1) { text := [], cursor := c }

/-! ### Quoted scalars -/

/-- The character that an escape of one letter stands for. -/
def escaped? (c : Char) : Option Char :=
  match c with
  | '0' => some (Char.ofNat 0)
  | 'a' => some (Char.ofNat 7)
  | 'b' => some (Char.ofNat 8)
  | 't' => some '\t'
  | '\t' => some '\t'
  | 'n' => some '\n'
  | 'v' => some (Char.ofNat 11)
  | 'f' => some (Char.ofNat 12)
  | 'r' => some '\r'
  | 'e' => some (Char.ofNat 27)
  | ' ' => some ' '
  | '"' => some '"'
  | '\\' => some '\\'
  | '/' => some '/'
  | 'N' => some (Char.ofNat 0x85)
  | '_' => some (Char.ofNat 0xA0)
  | 'L' => some (Char.ofNat 0x2028)
  | 'P' => some (Char.ofNat 0x2029)
  | _ => none

def escapeDigits? (c : Char) : Option Nat :=
  match c with
  | 'x' => some 2
  | 'u' => some 4
  | 'U' => some 8
  | _ => none

def charOf (n : Nat) : Except Fault Char :=
  if n < 0x110000 then .ok (Char.ofNat n) else .error .noSuchChar

def isHalf (n : Nat) : Bool := 0xD800 ≤ n && n < 0xE000

def Scalar.after (front : List Char) (s : Scalar) : Scalar := { s with text := front ++ s.text }

/-- The rest of a quoted scalar, up to the quote that ends it. -/
def quotedFrom (quote : Char) : Nat → Cursor → Except Fault Scalar
  | 0, _ => .error .malformed
  | fuel + 1, c =>
    match c.rest with
    | [] => .error .malformed
    | x :: rest =>
      if x == quote then
        if quote == '\'' && rest.head? == some quote then
          (quotedFrom quote fuel (c.skip 2)).map (Scalar.after [quote])
        else .ok { text := [], cursor := c.next }
      else if x == '\\' && quote == '"' then
        match rest with
        | [] => .error .malformed
        | letter :: rest =>
          match escaped? letter, escapeDigits? letter with
          | some char, _ => (quotedFrom quote fuel (c.skip 2)).map (Scalar.after [char])
          | none, some count =>
            let digits := rest.take count
            if digits.length == count && digits.all Text.isHexDigit then do
              let number := Text.numberOf 16 digits
              let char ← charOf number
              let s ← quotedFrom quote fuel (c.skip (2 + count))
              return { s.after [char] with isBroken := s.isBroken || isHalf number }
            else .error .malformed
          | none, none =>
            match c.next.takeBreak? with
            | none => .error .malformed
            | some (_, c) =>
              let lines := blankLines (Cursor.skipWhile isGap) c
              if lines.cursor.atAnyMark then .error .malformed
              else (quotedFrom quote fuel lines.cursor).map (Scalar.after lines.breaks)
      else if isGap x || isBreak x then
        let spaces := c.run isGap
        let c := c.skip spaces.length
        match c.takeBreak? with
        | none => (quotedFrom quote fuel c).map (Scalar.after spaces)
        | some (first, c) =>
          let lines := blankLines (Cursor.skipWhile isGap) c
          if lines.cursor.atAnyMark then .error .malformed
          else (quotedFrom quote fuel lines.cursor).map (Scalar.after (folded first lines.breaks))
      else (quotedFrom quote fuel c.next).map (Scalar.after [x])

def quotedScalar (quote : Char) (c : Cursor) : Except Fault Scalar :=
  quotedFrom quote (c.rest.length + 1) c.next

/-! ### Block scalars -/

/-- What becomes of the line ends after the last line of a block: one stays, all stay, or none. -/
inductive Chomping where
  | clip
  | keep
  | strip
deriving DecidableEq, Repr

def chomping? (c : Char) : Option Chomping :=
  if c == '+' then some .keep else if c == '-' then some .strip else none

def depth? (c : Char) : Option Nat :=
  if Text.isDigit c && c != '0' then some (c.toNat - '0'.toNat) else none

/-- The signs after the start of a block: how to treat its last line ends, its depth if it is given,
and how many signs there are. -/
def blockSigns (s : List Char) : Chomping × Option Nat × Nat :=
  match s with
  | [] => (.clip, none, 0)
  | a :: rest =>
    let second := rest.head?
    match chomping? a, depth? a with
    | some chomping, _ =>
      match second.bind depth? with
      | some depth => (chomping, some depth, 2)
      | none => (chomping, none, 1)
    | none, some depth =>
      match second.bind chomping? with
      | some chomping => (chomping, some depth, 2)
      | none => (.clip, some depth, 1)
    | none, none => (.clip, none, 0)

def skipMargin (indent : Nat) (c : Cursor) : Cursor :=
  c.skip (min (indent - c.column) (c.run (· == ' ')).length)

/-- The lines of a block from here on, where `breaks` are the blank lines before: their text, the line
end of the last of them, the blank lines after it, and the place reached. -/
def blockLines (isFolded : Bool) (indent : Nat) :
    Nat → List Char → Cursor → List Char × List Char × List Char × Cursor
  | 0, breaks, c => ([], [], breaks, c)
  | fuel + 1, breaks, c =>
    if c.column == indent && !c.rest.isEmpty then
      let line := c.run fun x => !isBreak x
      let startsBlank (s : List Char) : Bool := endsOr isGap s && !s.isEmpty
      let atEnd := c.skip line.length
      let (lineEnd, after) :=
        match atEnd.takeBreak? with
        | some (b, after) => ([b], after)
        | none => ([], atEnd)
      let lines := blankLines (skipMargin indent) after
      if lines.cursor.column == indent && !lines.cursor.rest.isEmpty then
        let joint :=
          if isFolded && lineEnd == ['\n'] && !startsBlank c.rest &&
              !startsBlank lines.cursor.rest then
            if lines.breaks.isEmpty then [' '] else []
          else lineEnd
        let (text, last, trailing, cursor) :=
          blockLines isFolded indent fuel lines.breaks lines.cursor
        (breaks ++ line ++ joint ++ text, last, trailing, cursor)
      else (breaks ++ line, lineEnd, lines.breaks, lines.cursor)
    else ([], [], breaks, c)

/-- The block scalar that starts here; its lines reach at least the column `indent`. -/
def blockScalar (isFolded : Bool) (indent : Nat) (c : Cursor) : Except Fault Scalar :=
  let c := c.next
  let (chomping, depth, signs) := blockSigns c.rest
  let c := c.skip signs
  match if spacedOff c.rest then c.emptyLine? else none with
  | none => .error .malformed
  | some c =>
    let (indent, lines) :=
      match depth with
      | some depth =>
        let indent := indent + depth - 1
        (indent, blankLines (skipMargin indent) c)
      | none =>
        let lines := blankLines (Cursor.skipWhile (· == ' ')) c
        (max indent lines.widest, lines)
    let (text, last, trailing, cursor) :=
      blockLines isFolded indent (c.rest.length + 1) lines.breaks lines.cursor
    let tail :=
      match chomping with
      | .strip => []
      | .clip => last
      | .keep => last ++ trailing
    .ok { text := text ++ tail, cursor }

end MarkupIds.Yaml
