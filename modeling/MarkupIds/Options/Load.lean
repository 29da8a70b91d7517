import MarkupIds.Options.Validate
import MarkupIds.Text.Utf8
import MarkupIds.Yaml.Value

/-! Options from a configuration file, with some of them replaced. The file holds one collection of
entries; an empty file holds none. -/

namespace MarkupIds

/-- A file of options: its name, and its bytes if it exists. -/
structure OptionsFile where
  name : String
  bytes : Option (List UInt8)

/-- Why there are no options. -/
inductive LoadFault where
  | missing (file : String)
  | undecodable (fault : Text.Utf8Fault)
  | malformed (file : String)
  | unreadable (fault : Yaml.Fault)
  | notEntries (file : String)
  | invalid (file : String) (issue : Issue)
deriving DecidableEq, Repr

namespace LoadFault

def message : LoadFault → String
  | missing file => "Options file not found: " ++ file
  | undecodable fault => fault.message
  | malformed file => "Invalid YAML in options file: " ++ file
  | unreadable fault => fault.message
  | notEntries file => "Options file must contain a mapping: " ++ file
  | invalid file issue =>
    let field := if issue.field == "" then "<root>" else issue.field
    "Invalid options schema: " ++ file ++ ": " ++ field ++ ": " ++ issue.fault.message

def isExpected : LoadFault → Bool
  | unreadable fault => fault.isExpected
  | _ => true

end LoadFault

namespace Options

def defaultFile : String := "<default options.yaml>"

def defaultEntries : List (Value × Value) :=
  [(.text "attr", .text "data-ast-id"), (.text "strategy", .text "hash"),
   (.text "prefix", .text "el-"), (.text "overwrite", .flag false), (.text "selector", .null),
   (.text "include", .list []), (.text "exclude", .list [])]

def entriesOf (file : OptionsFile) : Except LoadFault (List (Value × Value)) :=
  match file.bytes.map Text.decode with
  | none => .error (.missing file.name)
  | some (.error fault) => .error (.undecodable fault)
  | some (.ok text) =>
    match Yaml.read (Text.withLineFeeds text) with
    | .error .malformed => .error (.malformed file.name)
    | .error fault => .error (.unreadable fault)
    | .ok .null => .ok []
    | .ok (.record entries) => .ok entries
    | .ok _ => .error (.notEntries file.name)

/-- Entries of which some are replaced; a replacement that is null does not count. -/
def replaced (entries overrides : List (Value × Value)) : List (Value × Value) :=
  overrides.foldl (fun entries (key, value) =>
    match value with
    | .null => entries
    | _ => Value.putEntry entries key value) entries

/-- The options of a file, or those that hold without one, with some of them replaced. -/
def load (file : Option OptionsFile) (overrides : List (Value × Value)) :
    Except LoadFault Options := do
  let entries ←
    match file with
    | none => .ok defaultEntries
    | some file => entriesOf file
  match ofEntries (replaced entries overrides) with
  | .ok options => return options
  | .error [] => .error (.notEntries defaultFile)
  | .error (issue :: _) => .error (.invalid ((file.map (·.name)).getD defaultFile) issue)

end Options

end MarkupIds
