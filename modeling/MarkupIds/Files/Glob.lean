import MarkupIds.Files.Tree

/-! Patterns of file names. A star stands for any characters of a name, a question mark for one, and
brackets for one of some; two stars alone stand for any directories and what they hold. Names that
start with a point match only patterns that do. A run works on the file that a text names, on the source
files anywhere below a directory, or on the files that match a pattern. -/

namespace MarkupIds.Glob

/-- What stands for one character of a name, or for any number of them. -/
inductive Piece where
  | any
  | one
  | char (c : Char)
  | within (isNegated : Bool) (ranges : List (Char × Char))
deriving DecidableEq, Repr

/-- The text between brackets cut at the strokes that make ranges, and what follows the brackets. A
stroke makes a range only from the character `skip` on. -/
def cutRanges (skip : Nat) (held : List Char) : List Char → List (List Char)
  | [] => if held.isEmpty then [] else [held.reverse]
  | c :: rest =>
    match skip with
    | skip + 1 => cutRanges skip (c :: held) rest
    | 0 =>
      if c == '-' then
        if rest.isEmpty then [held.reverse ++ ['-']] else held.reverse :: cutRanges 2 [] rest
      else cutRanges 0 (c :: held) rest

/-- Neighbouring pieces whose range would run downwards are joined without the two ends. -/
def joinEmpty : List (List Char) → List (List Char)
  | [] => []
  | piece :: rest =>
    match joinEmpty rest with
    | [] => [piece]
    | next :: more =>
      match piece.getLast?, next with
      | some a, b :: tail => if b < a then (piece.dropLast ++ tail) :: more else piece :: next :: more
      | _, _ => piece :: next :: more

/-- The ranges that pieces stand for: from the last character of each to the first of the next, and
the characters between. -/
def rangesOf : List (List Char) → List (Char × Char)
  | [] => []
  | [piece] => piece.map fun c => (c, c)
  | piece :: next :: rest =>
    match piece.getLast?, next with
    | some a, b :: tail =>
      (piece.dropLast.map fun c => (c, c)) ++ (a, b) :: rangesOf (tail :: rest)
    | _, _ => (piece.map fun c => (c, c)) ++ rangesOf (next :: rest)
termination_by pieces => pieces.length

def bracketPiece (inside : List Char) : Piece :=
  let isNegated := inside.head? == some '!'
  let pieces := joinEmpty (cutRanges (if isNegated then 2 else 1) [] inside)
  match pieces with
  | ('!' :: first) :: rest => .within true (rangesOf (first :: rest))
  | _ => .within false (rangesOf pieces)

/-- The text between brackets, the first of which has been passed, and what follows them. A closing
bracket at their start stands for itself. -/
def bracketed? (s : List Char) : Option (List Char × List Char) :=
  let head := if s.head? == some '!' then ['!'] else []
  let rest := s.drop head.length
  let (head, rest) :=
    if rest.head? == some ']' then (head ++ [']'], rest.drop 1) else (head, rest)
  let body := rest.takeWhile (· != ']')
  match rest.drop body.length with
  | [] => none
  | _ :: rest => some (head ++ body, rest)

/-- The pieces of a pattern; `fuel` bounds their number. -/
def piecesFrom : Nat → List Char → List Piece
  | 0, _ => []
  | _, [] => []
  | fuel + 1, c :: rest =>
    if c == '*' then .any :: piecesFrom fuel rest
    else if c == '?' then .one :: piecesFrom fuel rest
    else if c == '[' then
      match bracketed? rest with
      | some (inside, rest) => bracketPiece inside :: piecesFrom fuel rest
      | none => .char c :: piecesFrom fuel rest
    else .char c :: piecesFrom fuel rest

def pieces (pattern : List Char) : List Piece := piecesFrom pattern.length pattern

def Piece.admits (c : Char) : Piece → Bool
  | .any => true
  | .one => true
  | .char d => c == d
  | .within isNegated ranges => isNegated != ranges.any fun (a, b) => a ≤ c && c ≤ b

def matchesPieces : List Piece → List Char → Bool
  | [], s => s.isEmpty
  | .any :: rest, [] => matchesPieces rest []
  | .any :: rest, c :: s => matchesPieces rest (c :: s) || matchesPieces (.any :: rest) s
  | _ :: _, [] => false
  | piece :: rest, c :: s => piece.admits c && matchesPieces rest s
termination_by pieces s => pieces.length + s.length

def matchesName (pattern name : String) : Bool :=
  matchesPieces (pieces pattern.toList) name.toList

def isPattern (s : List Char) : Bool := s.any fun c => c == '*' || c == '?' || c == '['

def isHidden (s : String) : Bool := s.toList.head? == some '.'

/-- A text cut after its last stroke, with the strokes at the end of the first part dropped unless
they are all of it. -/
def splitLast (s : List Char) : List Char × List Char :=
  let tail := (s.reverse.takeWhile (· != '/')).reverse
  let head := s.take (s.length - tail.length)
  (if head.all (· == '/') then head else (head.reverse.dropWhile (· == '/')).reverse, tail)

def joined (directory name : String) : String :=
  if directory == "" || directory.toList.getLast? == some '/' then directory ++ name
  else directory ++ "/" ++ name

end MarkupIds.Glob

namespace MarkupIds.FileTree

open Glob

/-- The place of a directory that a text names; the working directory if it names none. -/
def directoryOf? (t : FileTree) (s : String) : Option Location :=
  if s == "" then some t.here
  else (t.findWritten? s).bind fun l => if t.isDirectoryAt l then some l else none

def namesMatching (t : FileTree) (directory pattern : String) (onlyDirectories : Bool) :
    List String :=
  match t.directoryOf? directory with
  | none => []
  | some l =>
    (t.namesIn l onlyDirectories).filter fun name =>
      (isHidden pattern || !isHidden name) && matchesName pattern name

/-- What stands below a place, by the way that leads to it from there, hidden names left out. -/
def below (t : FileTree) (l : Location) (onlyDirectories : Bool) : List String :=
  let places := t.directories ++ if onlyDirectories then [] else t.files.map (·.1)
  places.filterMap fun place =>
    let way := place.drop l.length
    if l.isPrefixOf place && !way.isEmpty && !way.any isHidden then some ("/".intercalate way)
    else none

def withBelow (t : FileTree) (directory : String) (onlyDirectories : Bool) : List String :=
  match t.directoryOf? directory with
  | none => []
  | some l => "" :: t.below l onlyDirectories

/-- The name, if it stands in a directory; no name stands for the directory. -/
def nameItself (t : FileTree) (directory name : String) : List String :=
  let isThere :=
    if name == "" then directory != "" && (t.directoryOf? directory).isSome
    else (t.findWritten? (joined directory name)).isSome
  if isThere then [name] else []

/-- The paths that match a pattern, as they are written; `fuel` bounds the number of its parts. -/
def expandFrom (t : FileTree) : Nat → List Char → Bool → List String
  | 0, _, _ => []
  | fuel + 1, pattern, onlyDirectories =>
    let (head, tail) := splitLast pattern
    let name := String.ofList tail
    if !isPattern pattern then
      let path := if tail.isEmpty then String.ofList head else String.ofList pattern
      let isThere :=
        if tail.isEmpty then head != [] && (t.directoryOf? path).isSome
        else (t.findWritten? path).isSome
      if isThere then [String.ofList pattern] else []
    else
      let directories :=
        if isPattern head then t.expandFrom fuel head true else [String.ofList head]
      let names (directory : String) : List String :=
        if name == "**" then t.withBelow directory onlyDirectories
        else if isPattern tail then t.namesMatching directory name onlyDirectories
        else t.nameItself directory name
      directories.flatMap fun directory => (names directory).map (joined directory)

def expand (t : FileTree) (pattern : String) : List String :=
  t.expandFrom (pattern.length + 1) pattern.toList false

def sourceSuffixes : List String :=
  [".jsx", ".tsx", ".js", ".ts", ".xml", ".svg", ".html", ".htm"]

/-- The ways from a place to the files below it whose names end with a suffix, in order of their
parts. -/
def filesBelow (t : FileTree) (l : Location) (suffix : String) : List (List String) :=
  let isSource (way : List String) : Bool :=
    suffix.toList.isSuffixOf (way.getLast?.getD "").toList
  let ways := t.files.filterMap fun f =>
    let way := f.1.drop l.length
    if l.isPrefixOf f.1 && !way.isEmpty && isSource way then some way else none
  ways.mergeSort Path.partsLe

def sourcesBelow (t : FileTree) (p : Path) (l : Location) : List Path :=
  sourceSuffixes.flatMap fun suffix =>
    (t.filesBelow l suffix).map fun way => { p with parts := p.parts ++ way }

def filesMatching (t : FileTree) (pattern : String) : List Path :=
  let paths := ((t.expand pattern).mergeSort fun a b => a ≤ b).map Path.ofString
  paths.filter t.isFile

def findFiles (t : FileTree) (pattern : String) : List Path :=
  let p := Path.ofString pattern
  match t.find? p with
  | some l =>
    if t.isFileAt l then [p]
    else if t.isDirectoryAt l then t.sourcesBelow p l
    else t.filesMatching pattern
  | none => t.filesMatching pattern

end MarkupIds.FileTree
