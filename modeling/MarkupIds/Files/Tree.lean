import MarkupIds.Files.Path
import MarkupIds.Text.Quoted
import MarkupIds.Text.Utf8

/-! A tree of files and directories, and the operations on it that a run needs. A place in the tree is
the list of the names that lead to it from the root. A file is written in one step: the text goes to a
temporary file in the same directory, which then takes the place of the old one. -/

namespace MarkupIds

abbrev Location := List String

/-- Files with their bytes, directories, and the working directory. -/
structure FileTree where
  files : List (Location × List UInt8) := []
  directories : List Location := []
  here : Location := []

/-- Why an operation on files fails. -/
inductive FileFault where
  | missing (path : String)
  | notDirectory (path : String)
  | taken (path : String)
  | isDirectory (source target : String)
  | busy (source target : String)
deriving DecidableEq, Repr

namespace FileFault

def message : FileFault → String
  | missing path => "[Errno 2] No such file or directory: " ++ Text.quoted path
  | notDirectory path => "[Errno 20] Not a directory: " ++ Text.quoted path
  | taken path => "[Errno 17] File exists: " ++ Text.quoted path
  | isDirectory source target =>
    "[Errno 21] Is a directory: " ++ Text.quoted source ++ " -> " ++ Text.quoted target
  | busy source target =>
    "[Errno 16] Device or resource busy: " ++ Text.quoted source ++ " -> " ++ Text.quoted target

end FileFault

namespace FileTree

def isDirectoryAt (t : FileTree) (l : Location) : Bool := l.isEmpty || t.directories.contains l

def fileAt? (t : FileTree) (l : Location) : Option (List UInt8) :=
  (t.files.find? fun f => f.1 == l).map (·.2)

def isFileAt (t : FileTree) (l : Location) : Bool := (t.fileAt? l).isSome

def existsAt (t : FileTree) (l : Location) : Bool := t.isDirectoryAt l || t.isFileAt l

def nameIn? (directory l : Location) : Option String :=
  if l.dropLast == directory then l.getLast? else none

/-- The names of what stands directly in a directory; of directories alone if `onlyDirectories`. -/
def namesIn (t : FileTree) (directory : Location) (onlyDirectories : Bool) : List String :=
  let inner := t.directories.filterMap (nameIn? directory)
  if onlyDirectories then inner
  else inner ++ (t.files.map (·.1)).filterMap (nameIn? directory)

/-! ### Following paths -/

/-- The place that is reached from `l` along some parts, all but the last of which lead to
directories; or the place where the way ends, and whether a file stands there. -/
def follow (t : FileTree) (l : Location) : List String → Except (Bool × Location) Location
  | [] => .ok l
  | part :: rest =>
    if t.isDirectoryAt l then
      if part == "" || part == "." then t.follow l rest
      else if part == ".." then t.follow l.dropLast rest
      else t.follow (l ++ [part]) rest
    else .error (t.isFileAt l, l)

def startOf (t : FileTree) (root : String) : Location := if root == "" then t.here else []

/-- The place of a path, whether or not something stands there, or the fault on the way to it. -/
def place (t : FileTree) (p : Path) : Except FileFault Location :=
  match t.follow (t.startOf p.root) p.parts with
  | .ok l => .ok l
  | .error (isFile, _) =>
    .error (if isFile then .notDirectory p.toString else .missing p.toString)

def find? (t : FileTree) (p : Path) : Option Location :=
  match t.place p with
  | .ok l => if t.existsAt l then some l else none
  | .error _ => none

def isFile (t : FileTree) (p : Path) : Bool := (t.find? p).any t.isFileAt

def isDirectory (t : FileTree) (p : Path) : Bool := (t.find? p).any t.isDirectoryAt

/-- The place that a text names part by part; a stroke at its end asks for a directory. -/
def findWritten? (t : FileTree) (s : String) : Option Location :=
  if s == "" then none
  else
    match t.follow (t.startOf (Path.rootOf s)) (Path.pieces s) with
    | .ok l => if t.existsAt l then some l else none
    | .error _ => none

/-- The bytes of the file that a path leads to. -/
def read (t : FileTree) (p : Path) : Except FileFault (List UInt8) := do
  let l ← t.place p
  match t.fileAt? l with
  | some bytes => return bytes
  | none => .error (.missing p.toString)

/-! ### Changing files -/

/-- The tree with a file of some bytes at a place. -/
def put (t : FileTree) (l : Location) (bytes : List UInt8) : FileTree :=
  if t.isFileAt l then
    { t with files := t.files.map fun f => if f.1 == l then (l, bytes) else f }
  else { t with files := t.files ++ [(l, bytes)] }

def remove (t : FileTree) (l : Location) : FileTree :=
  { t with files := t.files.filter fun f => f.1 != l }

def addDirectory (t : FileTree) (l : Location) : FileTree :=
  if t.isDirectoryAt l then t else { t with directories := t.directories ++ [l] }

def addDirectories (t : FileTree) (l : Location) : FileTree :=
  (List.range l.length).foldl (fun t n => t.addDirectory (l.take (n + 1))) t

/-- The tree with a new directory; nothing may stand there yet. -/
def makeDirectory (t : FileTree) (p : Path) : Except FileFault FileTree := do
  let l ← t.place p
  if t.existsAt l then .error (.taken p.toString) else return t.addDirectory l

def makeDirectoryUnlessThere (t : FileTree) (p : Path) : FileTree × Except FileFault Unit :=
  match t.makeDirectory p with
  | .ok t => (t, .ok ())
  | .error fault => if t.isDirectory p then (t, .ok ()) else (t, .error fault)

/-- The tree with a directory at the first `n` parts of a path. Where a directory on the way is
missing, it is made first. -/
def ensureFirst (t : FileTree) (p : Path) : Nat → FileTree × Except FileFault Unit
  | 0 => t.makeDirectoryUnlessThere { p with parts := [] }
  | n + 1 =>
    let q := { p with parts := p.parts.take (n + 1) }
    match t.makeDirectory q with
    | .error (.missing _) =>
      match t.ensureFirst p n with
      | (t, .ok ()) => t.makeDirectoryUnlessThere q
      | failed => failed
    | _ => t.makeDirectoryUnlessThere q

def ensureDirectory (t : FileTree) (p : Path) : FileTree × Except FileFault Unit :=
  t.ensureFirst p p.parts.length

/-- A place as it is shown in messages: from the working directory if it is below it. -/
def shown (t : FileTree) (l : Location) : String :=
  if t.here.isPrefixOf l then ({ parts := l.drop t.here.length } : Path).toString
  else ({ root := "/", parts := l } : Path).toString

/-- A name for a temporary file in a directory that nothing else there has. -/
def unusedName (t : FileTree) (directory : Location) (name token : String) : String :=
  let candidate (n : Nat) : String :=
    name ++ "." ++ token ++ (if n == 0 then "" else toString n) ++ ".tmp"
  let isFree (n : Nat) : Bool := !t.existsAt (directory ++ [candidate n])
  candidate (((List.range (t.files.length + t.directories.length + 1)).find? isFree).getD 0)

/-- The tree after the file at `source` took the place of what stands at the path. -/
def moveTo (t : FileTree) (source : Location) (p : Path) : Except FileFault FileTree := do
  let l ← t.place p
  if p.parts.isEmpty || p.name == ".." then .error (.busy (t.shown source) p.toString)
  else if t.isDirectoryAt l then .error (.isDirectory (t.shown source) p.toString)
  else return (t.remove source).put l ((t.fileAt? source).getD [])

/-- The tree after a text was written to a path, or why it was not. Missing directories on the way
are made; `token` marks the temporary file. -/
def write (t : FileTree) (p : Path) (text : List Char) (token : String) :
    FileTree × Except FileFault Unit :=
  match t.ensureDirectory p.parent with
  | (t, .error fault) => (t, .error fault)
  | (t, .ok ()) =>
    match t.place p.parent with
    | .error fault => (t, .error fault)
    | .ok directory =>
      let source := directory ++ [t.unusedName directory p.name token]
      let written := t.put source (Text.encode text)
      match written.moveTo source p with
      | .ok t => (t, .ok ())
      | .error fault => (written.remove source, .error fault)

end FileTree

end MarkupIds
