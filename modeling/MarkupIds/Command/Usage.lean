import MarkupIds.Command.Basic
import MarkupIds.Text.Quoted
import MarkupIds.Text.Similar

/-! Help texts, and what is told about arguments that cannot be used. -/

namespace MarkupIds

namespace Command

def usageLine : Option Command → String
  | none => "Usage: " ++ program ++ " [OPTIONS] COMMAND [ARGS]..."
  | some c => "Usage: " ++ program ++ " " ++ c.name ++ " [OPTIONS] \x7bPATH\x7d"

def wrapFrom (width : Nat) (line : String) : List String → List String
  | [] => [line]
  | word :: rest =>
    if line.length + 1 + word.length ≤ width then wrapFrom width (line ++ " " ++ word) rest
    else line :: wrapFrom width word rest

def wrap (width : Nat) (s : String) : List String :=
  match s.splitOn " " with
  | [] => []
  | word :: rest => wrapFrom width word rest

def spaces (n : Nat) : String := String.ofList (List.replicate n ' ')

def helpWidth : Nat := 78

/-- A list of terms with what they mean: the meanings stand in one column and are wrapped there. -/
def definitions (items : List (String × String)) : List String :=
  let column := (items.map fun i => i.1.length).foldl max 0 + 2
  items.flatMap fun (term, meaning) =>
    match wrap (helpWidth - column - 2) meaning with
    | [] => ["  " ++ term]
    | line :: rest =>
      ("  " ++ term ++ spaces (column - term.length) ++ line) ::
        rest.map fun line => "  " ++ spaces column ++ line

def lines (ls : List String) : String := String.join (ls.map (· ++ "\n"))

def programOptions : List (String × String) :=
  [("--install-completion", "Install completion for the current shell."),
   ("--show-completion",
     "Show completion for the current shell, to copy it or customize the installation."),
   ("--help", "Show this message and exit.")]

/-- The help text of the program or of one of its commands. -/
def help : Option Command → String
  | none =>
    lines <| [usageLine none, "", "  Append deterministic ids to JSX, XML and HTML elements", "",
        "Options:"] ++ definitions programOptions ++ ["", "Commands:"] ++
      definitions (all.map fun c => (c.name, c.purpose))
  | some c =>
    lines <| [usageLine (some c), "", "  " ++ c.purpose, "", "Arguments:"] ++
      definitions [("PATH <str>", "Input file, directory or glob.  [required]")] ++
      ["", "Options:"] ++ definitions (c.settings.map fun s => (s.term, s.purpose))

end Command

/-- What is wrong with the value of an option that names a file or directory. -/
inductive PlaceFault where
  | missing
  | isDirectory
  | isFile
deriving DecidableEq, Repr

/-- What is wrong with the arguments of a call. -/
inductive UsageFault where
  | noCommand
  | unknownCommand (name : String)
  | unknownOption (name : String) (similar : List String)
  | noValue (name : String)
  | unwantedValue (name : String)
  | noPath
  | extraArguments (arguments : List String)
  | badPlace (setting : Setting) (value : String) (fault : PlaceFault)
deriving DecidableEq, Repr

namespace UsageFault

/-- The fault in words. -/
def message : UsageFault → String
  | noCommand => "Missing command."
  | unknownCommand name =>
    let text := "No such command " ++ Text.quoted name ++ "."
    match Text.similar name (Command.all.map Command.name) with
    | [] => text
    | similar => text ++ " Did you mean " ++ ", ".intercalate (similar.map Text.quoted) ++ "?"
  | unknownOption name similar =>
    let text := "No such option: " ++ name
    match similar.mergeSort fun a b => a ≤ b with
    | [] => text
    | [option] => text ++ " Did you mean " ++ option ++ "?"
    | options => text ++ " (Possible options: " ++ ", ".intercalate options ++ ")"
  | noValue name => "Option " ++ Text.quoted name ++ " requires an argument."
  | unwantedValue name => "Option " ++ Text.quoted name ++ " does not take a value."
  | noPath => "Missing argument 'PATH'."
  | extraArguments arguments =>
    "Got unexpected extra argument(s) (" ++ " ".intercalate arguments ++ ")"
  | badPlace setting value fault =>
    let kind := if setting == .output then "dir" else "file"
    let what :=
      match fault with
      | .missing => " does not exist."
      | .isDirectory => " is a directory."
      | .isFile => " is a file."
    "Invalid value for " ++ setting.shownName ++ ": " ++ kind ++ " " ++ Text.quoted value ++ what

def isBare : UsageFault → Bool
  | noValue _ | unwantedValue _ => true
  | _ => false

/-- What is told about a fault in the arguments of the program or of one of its commands. -/
def report (fault : UsageFault) (command : Option Command) : String :=
  let error := "Error: " ++ fault.message
  if fault.isBare then Command.lines [error]
  else
    let caller := Command.program ++ ((command.map (" " ++ ·.name)).getD "")
    Command.lines
      [Command.usageLine command, "Try '" ++ caller ++ " --help' for help.", "", error]

end UsageFault

end MarkupIds
