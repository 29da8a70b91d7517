import MarkupIds.Files.Path
import MarkupIds.Text.Lower

/-! The formats of documents, and the format of a file: by its suffix, or else by how its text starts. -/

namespace MarkupIds

/-- A format of documents. -/
inductive Format where
  | html
  | jsx
  | xml
deriving DecidableEq, Repr

namespace Format

def all : List Format := [html, jsx, xml]

def name : Format → String
  | .html => "html"
  | .jsx => "jsx"
  | .xml => "xml"

def ofName? (s : String) : Option Format := all.find? fun format => format.name == s

/-- The format that a suffix stands for. -/
def ofSuffix? (suffix : List Char) : Option Format :=
  let s := String.ofList (Text.lower suffix)
  if [".jsx", ".tsx", ".js", ".ts"].contains s then some .jsx
  else if [".xml", ".svg"].contains s then some .xml
  else if [".html", ".htm"].contains s then some .html
  else none

/-- The format that a text shows by its start. -/
def ofText (text : List Char) : Format :=
  let body := Text.trim text
  let startsWith (start : String) (s : List Char) : Bool := start.toList.isPrefixOf s
  if startsWith "<?xml" body || startsWith "<svg" body then .xml
  else if startsWith "<!DOCTYPE" (body.map Char.toUpper) || startsWith "<html" body then .html
  else .jsx

def ofFile (p : Path) (text : List Char) : Format := (ofSuffix? p.suffix).getD (ofText text)

end Format

end MarkupIds
