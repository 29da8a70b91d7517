import MarkupIds.Command.Arguments
import MarkupIds.Document
import MarkupIds.Files.Glob
import MarkupIds.Files.Tree
import MarkupIds.Format
import MarkupIds.Options.Load
import MarkupIds.Report

/-! A run of the program on a tree of files: what it prints, how it ends, and the tree that it
leaves. A file that fails is reported and the others go on. -/

namespace MarkupIds

/-- A fault that ends a run at once, because no caller expects it. -/
inductive Crash where
  | options (fault : LoadFault)
  | document (failure : Failure)

/-- What comes of a run. -/
structure Run where
  tree : FileTree
  exitCode : Nat := 0
  output : String := ""
  errors : String := ""
  crash : Option Crash := none

namespace Run

def say (line : String) (r : Run) : Run := { r with output := r.output ++ line ++ "\n" }

/-- The line that shows an event, if it is shown: all are with their source, or else the payload of
those that matter. -/
def eventLine (isVerbose : Bool) (source : String) (e : Event) : Option String :=
  if isVerbose then some (e.level.name ++ " " ++ source ++ " " ++ e.payload)
  else if Level.warning.rank ≤ e.level.rank then some e.payload
  else none

def show_ (isVerbose : Bool) (source : String) (events : List Event) (r : Run) : Run :=
  { r with errors := r.errors ++ Command.lines (events.filterMap (eventLine isVerbose source)) }

end Run

/-- What a command works with. -/
structure Job where
  format : Option Format
  options : Options
  target : Option Path
  isVerbose : Bool
  token : String
  host : Host := {}

namespace Job

def targetFor (source : Path) (directory : Option Path) : Path :=
  match directory with
  | none => source
  | some d => d.child source.name

inductive Problem where
  | file (fault : FileFault)
  | decoding (fault : Text.Utf8Fault)
  | document (failure : Failure)

def Problem.message : Problem → String
  | file fault => fault.message
  | decoding fault => fault.message
  | document failure => failure.message

def textOf (t : FileTree) (source : Path) : Except Problem (List Char) :=
  match t.read source with
  | .error fault => .error (.file fault)
  | .ok bytes =>
    match Text.decode bytes with
    | .error fault => .error (.decoding fault)
    | .ok text => .ok text

def formatOf (job : Job) (source : Path) (text : List Char) : Format :=
  job.format.getD (Format.ofFile source text)

/-- What comes of one file: the tree afterwards, the events on the way, and the place of the result or
the problem. -/
def process (job : Job) (source : Path) (t : FileTree) :
    FileTree × List Event × Except Problem Path :=
  match textOf t source with
  | .error problem => (t, [], .error problem)
  | .ok text =>
    let outcome := Document.process (job.formatOf source text) text job.options job.host
    match outcome.result with
    | .error failure => (t, outcome.events, .error (.document failure))
    | .ok result =>
      let target := targetFor source job.target
      match t.write target result job.token with
      | (t, .ok ()) => (t, outcome.events, .ok target)
      | (t, .error fault) => (t, outcome.events, .error (.file fault))

def formatName (job : Job) (source : Path) (t : FileTree) : Option String :=
  match job.format, textOf t source with
  | some format, _ => some format.name
  | none, .ok text => some (Format.ofFile source text).name
  | none, .error _ => none

def report (job : Job) (source : Path) (t : FileTree) (result : Except Problem Path) : FileReport :=
  match result with
  | .ok target => { path := source, format := job.formatName source t, target := some target }
  | .error problem =>
    { path := source, format := job.formatName source t, problem := some problem.message }

def crashOf (result : Except Problem Path) : Option Failure :=
  match result with
  | .error (.document failure) => if failure.isExpected then none else some failure
  | _ => none

/-- The files of a run one after the other, with a report on each. A failure that no caller expects
ends the run. -/
def processAll (job : Job) (r : Run) : List Path → Run × List FileReport
  | [] => (r, [])
  | source :: rest =>
    let (tree, events, result) := job.process source r.tree
    let shown := { r with tree }.show_ job.isVerbose "append_ids.core" events
    match crashOf result with
    | some failure => ({ shown with exitCode := 1, crash := some (.document failure) }, [])
    | none =>
      let report := job.report source r.tree result
      let told :=
        if job.isVerbose || !report.isSuccess then shown.say report.line else shown
      let (run, reports) := job.processAll told rest
      (run, report :: reports)

def finishedEvent (reports : List FileReport) : Event :=
  { level := .info
    name := "run_finished"
    fields := [("files", .int reports.length), ("errors", .int (FileReport.failures reports))] }

/-- The run of a job on the files that a pattern names. -/
def run (job : Job) (pattern : String) (r : Run) : Run :=
  match r.tree.findFiles pattern with
  | [] => r.say ("ERROR: no files found matching: " ++ pattern)
  | files =>
    let started :=
      if job.isVerbose then
        r.say ("INFO: found " ++ toString files.length ++ " file(s) to process")
      else r
    let (run, reports) := job.processAll started files
    if run.crash.isSome then run
    else
      let finished := (run.say (FileReport.summary reports)).show_ job.isVerbose
        "append_ids.cli" [finishedEvent reports]
      { finished with exitCode := if FileReport.failures reports == 0 then 0 else 1 }

end Job

namespace Call

/-- What is wrong with the value of an option that names a file or directory. -/
def placeFault? (t : FileTree) (s : Setting) (value : String) : Option PlaceFault :=
  match s, t.findWritten? value with
  | .config, none => some .missing
  | .config, some l => if t.isDirectoryAt l then some .isDirectory else none
  | .output, some l => if t.isFileAt l then some .isFile else none
  | _, _ => none

/-- What is wrong with the arguments of a command: the values of options in the order in which they
are first given, then a missing path, then arguments beyond it. -/
def fault? (t : FileTree) (a : Arguments) : Option UsageFault :=
  let badPlace (s : Setting) : Option UsageFault :=
    (a.value? s).bind fun value => (placeFault? t s value).map (.badPlace s value)
  match (a.settings.map (·.1)).findSome? badPlace with
  | some fault => some fault
  | none =>
    match a.others with
    | [] => some .noPath
    | [_] => none
    | _ :: extra => some (.extraArguments extra)

/-- The options that a command line replaces; those that are not given are null. -/
def overrides (c : Command) (a : Arguments) : List (Value × Value) :=
  let given (name : String) (s : Setting) : Value × Value :=
    (.text name, ((a.value? s).map Value.text).getD .null)
  let choice (s : Setting) : List (Value × Value) :=
    match s with
    | .selector => [given "selector" s]
    | .included => [given "include" s]
    | .excluded => [given "exclude" s]
    | _ => []
  [given "attr" .attr, given "strategy" .strategy, given "prefix" .idPrefix,
    (.text "overwrite", if a.has .overwrite then .flag true else .null)] ++ c.choices.flatMap choice

def optionsFile (t : FileTree) (a : Arguments) : Option OptionsFile :=
  (a.value? .config).map fun value =>
    let p := Path.ofString value
    ⟨p.toString, (t.find? p).bind t.fileAt?⟩

/-- The run of a command on a path. -/
def runCommand (c : Command) (a : Arguments) (path token : String) (t : FileTree) (host : optParam Host {}) : Run :=
  match Options.load (optionsFile t a) (overrides c a) with
  | .error fault =>
    if fault.isExpected then { tree := t, exitCode := 1, output := "ERROR: " ++ fault.message ++ "\n" }
    else { tree := t, exitCode := 1, crash := some (.options fault) }
  | .ok options =>
    let job : Job :=
      { format := c.format?
        options
        target := (a.value? .output).map Path.ofString
        isVerbose := a.has .verbose
        token
        host }
    job.run path { tree := t }

def refusal (t : FileTree) (fault : UsageFault) (c : Option Command) : Run :=
  { tree := t, exitCode := 2, errors := fault.report c }

def run (call : Call) (token : String) (t : FileTree) (host : optParam Host {}) : Run :=
  match call with
  | .help c => { tree := t, output := Command.help c }
  | .command c a =>
    match fault? t a with
    | some fault => refusal t fault (some c)
    | none => runCommand c a (a.others.head?.getD "") token t host

end Call

/-- The run of the program with some arguments on a tree of files; `token` marks temporary files. -/
def Run.ofArguments (args : List String) (token : String) (t : FileTree) (host : optParam Host {}) : Run :=
  match Call.read args with
  | .error (fault, c) => Call.refusal t fault c
  | .ok call => call.run token t host

end MarkupIds
