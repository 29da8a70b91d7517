import MarkupIds.Command.Run

/-! The program on real files: the files that a call can reach are read into a tree, the call runs on
the tree, and what changed is written back. -/

namespace MarkupIds.Main

def locationOf (path : String) : Location := (Path.ofString path).parts

def pathOf (l : Location) : String := ({ root := "/", parts := l } : Path).toString

def withFile (t : FileTree) (l : Location) (bytes : List UInt8) : FileTree :=
  (t.addDirectories l.dropLast).put l bytes

/-- The tree with what stands in a directory and below it. Links to directories are not followed. -/
partial def readBelow (entries : Array IO.FS.DirEntry) (t : FileTree) : IO FileTree := do
  let mut t := t
  for entry in entries do
    let l := locationOf entry.path.toString
    let kind := (← entry.path.symlinkMetadata).type
    if kind == .dir then
      t ← readBelow (← entry.path.readDir) (t.addDirectories l)
    else if !(← entry.path.isDir) then
      t := withFile t l (← IO.FS.readBinFile entry.path).toList
  return t

/-- The tree with what stands at a path and below it. -/
def readAt (path : String) (t : FileTree) : IO FileTree := do
  let place ← (some <$> IO.FS.realPath path) <|> pure none
  match place with
  | none => return t
  | some place =>
    let l := locationOf place.toString
    if ← place.isDir then readBelow (← place.readDir) (t.addDirectories l)
    else if ← place.pathExists then return withFile t l (← IO.FS.readBinFile place).toList
    else return t

/-- The part of a pattern that names a directory or file without signs. -/
def literalStart (pattern : String) : String :=
  let parts := (Path.ofString pattern).parts.takeWhile fun p => !Glob.isPattern p.toList
  ({ root := Path.rootOf pattern, parts } : Path).toString

def placesOf (args : List String) : List String :=
  match Call.read args with
  | .ok (.command _ a) =>
    a.others.map literalStart ++ (a.value? .config).toList ++ (a.value? .output).toList
  | _ => []

/-- The tree of the files that a call can reach. -/
def readTree (args : List String) : IO FileTree := do
  let here := locationOf (← IO.currentDir).toString
  let mut t ← readAt (pathOf here) ({ here } : FileTree)
  for place in placesOf args do
    let p := Path.ofString place
    if p.root != "" || p.parts.head? == some ".." then t ← readAt p.toString t
  return t.addDirectories here

def writeFile (l : Location) (bytes : List UInt8) (token : String) : IO Unit := do
  let path := pathOf l
  let temporary := path ++ "." ++ token ++ ".tmp"
  IO.FS.createDirAll (pathOf l.dropLast)
  IO.FS.writeBinFile temporary ⟨bytes.toArray⟩
  IO.FS.rename temporary path

def writeChanges (old new : FileTree) (token : String) : IO Unit := do
  for l in new.directories do
    if !old.isDirectoryAt l then IO.FS.createDirAll (pathOf l)
  for (l, bytes) in new.files do
    if old.fileAt? l != some bytes then writeFile l bytes token

end MarkupIds.Main

/-- Gives ids to the elements of the documents that the arguments name. -/
def main (args : List String) : IO UInt32 := do
  let token := toString (← IO.monoNanosNow)
  let tree ← MarkupIds.Main.readTree args
  let run := MarkupIds.Run.ofArguments args token tree
  MarkupIds.Main.writeChanges tree run.tree token
  IO.print run.output
  IO.eprint run.errors
  match run.crash with
  | none => pure ()
  | some (.options fault) => IO.eprintln fault.message
  | some (.document failure) => IO.eprintln (failure.label ++ ": " ++ failure.message)
  return UInt32.ofNat run.exitCode
