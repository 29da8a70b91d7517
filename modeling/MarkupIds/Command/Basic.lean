import MarkupIds.Format

/-! The commands of the program and the options that each of them knows. -/

namespace MarkupIds

/-- A command: ids for files of one format, or of the format that each file has. -/
inductive Command where
  | jsx
  | xml
  | html
  | auto
deriving DecidableEq, Repr

/-- An option of a command. -/
inductive Setting where
  | attr
  | strategy
  | idPrefix
  | overwrite
  | selector
  | included
  | excluded
  | config
  | output
  | verbose
  | help
deriving DecidableEq, Repr

namespace Setting

/-- The long name of an option. -/
def long : Setting → String
  | attr => "--attr"
  | strategy => "--strategy"
  | idPrefix => "--prefix"
  | overwrite => "--overwrite"
  | selector => "--selector"
  | included => "--include"
  | excluded => "--exclude"
  | config => "--config"
  | output => "--output"
  | verbose => "--verbose"
  | help => "--help"

/-- The short name of an option, if it has one. -/
def short? : Setting → Option Char
  | output => some 'o'
  | verbose => some 'v'
  | _ => none

/-- What kind of value an option takes, if it takes one. -/
def value? : Setting → Option String
  | overwrite | verbose | help => none
  | config => some "<file>"
  | output => some "<dir>"
  | _ => some "<str>"

def shownName (s : Setting) : String :=
  match s.short? with
  | some c => "'" ++ s.long ++ "' / '-" ++ String.singleton c ++ "'"
  | none => "'" ++ s.long ++ "'"

def term (s : Setting) : String :=
  let short := (s.short?.map fun c => "-" ++ String.singleton c ++ ", ").getD ""
  short ++ s.long ++ ((s.value?.map (" " ++ ·)).getD "")

/-- What an option does, in words. -/
def purpose : Setting → String
  | attr => "Attribute name for the id."
  | strategy => "Id strategy: hash, slug or path."
  | idPrefix => "Id prefix."
  | overwrite => "Replace ids that are already present."
  | selector => "CSS selector for target elements."
  | included => "Comma-separated tags to include."
  | excluded => "Comma-separated tags to exclude."
  | config => "YAML options file."
  | output => "Output directory (default: in place)."
  | verbose => "Verbose output."
  | help => "Show this message and exit."

end Setting

namespace Command

def program : String := "ast-append-ids"

def all : List Command := [jsx, xml, html, auto]

def name : Command → String
  | jsx => "jsx"
  | xml => "xml"
  | html => "html"
  | auto => "auto"

def ofName? (s : String) : Option Command := all.find? fun c => c.name == s

/-- The format of a command's files; each file has its own if there is none. -/
def format? : Command → Option Format
  | jsx => some .jsx
  | xml => some .xml
  | html => some .html
  | auto => none

def purpose : Command → String
  | jsx => "Process JSX/TSX files."
  | xml => "Process XML and SVG files."
  | html => "Process HTML files."
  | auto => "Detect each file's type and process it."

def choices : Command → List Setting
  | jsx => [.included, .excluded]
  | xml => [.selector]
  | html => [.selector]
  | auto => []

def settings (c : Command) : List Setting :=
  [.attr, .strategy, .idPrefix, .overwrite] ++ c.choices ++ [.config, .output, .verbose, .help]

end Command

end MarkupIds
