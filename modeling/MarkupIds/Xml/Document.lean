import MarkupIds.Xml.Declaration
import MarkupIds.Xml.Subset
import MarkupIds.Xml.Content

/-! Whole documents, and whether they are fit: none of the problems ended the reading, and the last
one, if there is any, is only a warning. A fit document has two trees: one that holds the texts of its elements, and one
that selectors see. -/

namespace MarkupIds.Xml

open MarkupIds.Markup (Node Tag TextKind)

namespace Reading

/-- White space, comments and instructions. -/
def asides : Nat → Reading (List Piece)
  | 0 => return []
  | fuel + 1 => do
    let _ ← spaces
    if ← sees ['<', '?'] then
      let piece ← instruction
      return piece :: (← asides fuel)
    else if ← sees "<!--".toList then
      let piece ← comment
      return piece :: (← asides fuel)
    else return []

def allAsides : Reading (List Piece) := do asides (← remaining).length.succ

/-- A document. -/
def document : Reading (List Piece) := do
  match ← peek with
  | none => fail .documentEmpty
  | some c => if c == '\x00' then fail .documentEmpty
  match (← remaining).drop 5 with
  | c :: _ => if isSpace c && (← sees "<?xml".toList) then declaration
  | [] => pure ()
  let before ← allAsides
  let typed ← if ← sees "<!DOCTYPE".toList then
      let piece ← documentType
      pure (piece :: (← allAsides))
    else pure []
  unless ← sees ['<'] do fail .startTagExpected
  let root ← root
  let after ← allAsides
  unless (← remaining).isEmpty do fail .extraContent
  return before ++ typed ++ root ++ after

end Reading

def joinLineEnds : List Char → List Char
  | '\r' :: '\n' :: s => '\n' :: joinLineEnds s
  | c :: s => c :: joinLineEnds s
  | [] => []

def withoutMark (s : List Char) : List Char :=
  match s with
  | c :: r => if c.toNat == 0xFEFF then r else s
  | [] => []

structure Contents where
  pieces : List Piece
  declaresEntities : Bool

/-- The contents of a document, or the first problem of one that is not fit. -/
def read (source : List Char) : Except Problem Contents :=
  match Reading.document.run { rest := joinLineEnds (withoutMark source) } with
  | .error problem => .error problem
  | .ok (pieces, s) =>
    let contents : Contents :=
      ⟨pieces, !(s.docType.entities.isEmpty && s.docType.parameters.isEmpty)⟩
    match s.problems with
    | [] => .ok contents
    | last :: others =>
      if last.cause.severity == .error then .error (others.getLastD last) else .ok contents

namespace Piece

def isReference : Piece → Bool
  | reference => true
  | _ => false

/-- The pieces with neighbouring plain texts joined. -/
def joined : List Piece → List Piece
  | [] => []
  | .text .plain a :: rest =>
    match joined rest with
    | .text .plain b :: rest => .text .plain (a ++ b) :: rest
    | rest => .text .plain a :: rest
  | piece :: rest => piece :: joined rest

end Piece

/-- A tree under construction: open elements with their content so far in reverse, the innermost
first, and the content outside of them. -/
structure Builder where
  stack : List (Tag × List Node) := []
  top : List Node := []

namespace Builder

def add (b : Builder) (node : Node) : Builder :=
  match b.stack with
  | [] => { b with top := node :: b.top }
  | (tag, content) :: rest => { b with stack := (tag, node :: content) :: rest }

/-- One more piece. A reference stays out. -/
def step (b : Builder) : Piece → Builder
  | .opening tag => { b with stack := (tag, []) :: b.stack }
  | .closing =>
    match b.stack with
    | [] => b
    | (tag, content) :: rest => { b with stack := rest }.add (.element tag content.reverse)
  | .text kind content => if kind == .plain && content.isEmpty then b else b.add (.text kind content)
  | .reference => b

end Builder

def treeOf (pieces : List Piece) : List Node := (pieces.foldl Builder.step {}).top.reverse

namespace Contents

def tree (c : Contents) : List Node := treeOf (Piece.joined c.pieces)

/-- A text as selectors see it: nothing but spaces becomes one space or one line feed. -/
def collapsed (s : List Char) : List Char :=
  if s.all fun c => isSpace c || c.toNat == 12 then (if s.contains '\n' then ['\n'] else [' '])
  else s

def collapsedPiece : Piece → Piece
  | .text .plain content => .text .plain (if content.isEmpty then [] else collapsed content)
  | piece => piece

/-- The tree that selectors see: references are nothing in it. Where entities are declared, nothing
can be told of the elements and it is empty. -/
def selectorTree (c : Contents) : List Node :=
  if c.declaresEntities then []
  else
    treeOf ((Piece.joined (c.pieces.filter fun p => !p.isReference)).map collapsedPiece)

end Contents

end MarkupIds.Xml
