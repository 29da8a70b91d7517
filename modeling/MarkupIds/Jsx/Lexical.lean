import MarkupIds.Jsx.Syntax
import MarkupIds.Text.Blank

/-! Words, signs and comments of JavaScript, where a statement may end without a semicolon, and the literals: numbers,
strings, templates and regular expressions. -/

namespace MarkupIds.Jsx

/-- The rules that others refer to. -/
inductive Rule where
  | program
  | statement
  | block
  | declaration
  | expressions
  | expression
  | plainExpression
  | operand
  | plainOperand
  | pattern
  | type
  | typeArguments
  | typeParameters
  | objectType
  | parameters
  | callSignature
  | classBody
  | arguments
  | template
  | decorator
  | propertyName
  | element
  | jsxExpression
deriving DecidableEq, Repr

abbrev Part := Grammar.Pattern Rule Kind

open Grammar.Pattern

abbrev rule (r : Rule) : Part := .rule r

def isSpace (c : Char) : Bool :=
  let n := c.toNat
  (Text.isBlank c && !(28 ≤ n && n ≤ 31)) || n == 0xFEFF || n == 0x2060 || n == 0x200B

def isLineEnd (c : Char) : Bool := c == '\n' || c == '\r' || c.toNat == 0x2028 || c.toNat == 0x2029

/-- A character that may stand in a name. -/
def isNameChar (c : Char) : Bool :=
  !(c.toNat < 32 || isSpace c || ":;`\"'@#.,|^&<=>+-*/\\%?!~()[]\x7b\x7d".toList.contains c)

/-- A character at which a name may start. -/
def isNameStart (c : Char) : Bool := isNameChar c && !c.isDigit

def isHex (c : Char) : Bool := c.isDigit || ('a' ≤ c && c ≤ 'f') || ('A' ≤ c && c ≤ 'F')

def lineComment : Part := .text ['/', '/'] ++ .run fun c => !isLineEnd c

def blockComment : Part :=
  .text ['/', '*'] ++
    .many (run1 (fun c => c != '*') <|> (.unless (.text ['*', '/']) ++ .char fun _ => true)) ++
    .text ['*', '/']

def comment : Part := lineComment <|> blockComment

def trivia : Part := .many (run1 isSpace <|> comment)

def foundTrivia : Part := .many (run1 isSpace <|> .token .comment comment)

/-- A line that a comment of another kind takes up. -/
def foreignComment : Part :=
  (.text "<!--".toList <|> .text "-->".toList) ++
    .run fun c => !(c == '\n' || c.toNat == 0x2028 || c.toNat == 0x2029)

/-- A sign behind white space and comments. -/
def sign (s : String) : Part := trivia ++ .text s.toList

/-- A word behind white space and comments. -/
def word (w : String) : Part := trivia ++ .text w.toList ++ .unless (.char isNameChar)

def writtenCharacter : Part :=
  (.text ['\\', 'u'] ++ .char isHex ++ .char isHex ++ .char isHex ++ .char isHex) <|>
    (.text ['\\', 'u', '\x7b'] ++ run1 isHex ++ .text ['\x7d'])

def nameChars : Part :=
  (.char isNameStart <|> writtenCharacter) ++ .many (run1 isNameChar <|> writtenCharacter)

/-- A name behind white space and comments, but not one of some words. -/
def nameExcept (words : List String) : Part :=
  trivia ++ .given (fun s => !words.contains (String.ofList (s.takeWhile isNameChar))) ++ nameChars

/-- A name behind white space and comments. -/
def anyName : Part := trivia ++ nameChars

def privateName : Part := trivia ++ .text ['#'] ++ nameChars

def listed (a : Part) : Part := a ++ .many (sign "," ++ a)

/-- Parts with commas between them, any of which may be missing. -/
def holed (a : Part) : Part := opt a ++ .many (sign "," ++ opt a)

def sameLine (a : Part) : Part := .run (fun c => isSpace c && !isLineEnd c) ++ a

/-- What follows white space and comments. Within the first line only `inLine` counts as white
space. -/
def afterComments (isBlank : Char → Bool) : Nat → List Char → List Char
  | 0, s => s
  | fuel + 1, s =>
    match s.dropWhile isBlank with
    | '/' :: '/' :: r => afterComments isBlank fuel (r.dropWhile fun c => c != '\n')
    | '/' :: '*' :: r => afterComments isBlank fuel (afterBlock r)
    | r => r
where
  afterBlock : List Char → List Char
    | '*' :: '/' :: r => r
    | _ :: r => afterBlock r
    | [] => []

/-- A text starts with a word that no letter follows. -/
def startsWithWord (w : String) (s : List Char) : Bool :=
  w.toList.isPrefixOf s &&
    (match s.drop w.length with
      | c :: _ => !c.isAlpha
      | [] => true)

/-- A statement may end in front of what begins a new line so. -/
def mayStart (s : List Char) : Bool :=
  match s with
  | [] => true
  | '+' :: r => r.head? == some '+'
  | '-' :: r => r.head? == some '-'
  | '!' :: r => r.head? != some '='
  | c :: _ =>
    if "`,.;*%><=?^|&/:".toList.contains c then false
    else !(startsWithWord "in" s || startsWithWord "instanceof" s)

/-- A statement may end here without a semicolon: at the end of the text, in front of a closing
brace, or at the end of a line that the next one does not go on with. -/
def endsHere (s : List Char) : Bool :=
  let blankInLine (c : Char) : Bool := isSpace c && c != '\n'
  match afterComments blankInLine s.length s with
  | [] => true
  | '\x7d' :: _ => true
  | '\n' :: r => mayStart (afterComments isSpace r.length r)
  | _ => false

def semicolon : Part := sign ";" <|> .given endsHere

def digits (p : Char → Bool) : Part := .char p ++ .many (opt (.char (· == '_')) ++ .char p)

def based (lower upper : Char) (p : Char → Bool) : Part :=
  .char (· == '0') ++ .char (fun c => c == lower || c == upper) ++ digits p

def exponent : Part :=
  .char (fun c => c == 'e' || c == 'E') ++ opt (.char fun c => c == '-' || c == '+') ++
    digits Char.isDigit

/-- A number. -/
def number : Part :=
  trivia ++ oneOf
    [based 'x' 'X' isHex ++ opt (.text ['n']),
     based 'b' 'B' (fun c => c == '0' || c == '1') ++ opt (.text ['n']),
     based 'o' 'O' (fun c => '0' ≤ c && c ≤ '7') ++ opt (.text ['n']),
     digits Char.isDigit ++ .text ['n'],
     digits Char.isDigit ++ opt (.text ['.'] ++ opt (digits Char.isDigit)) ++ opt exponent,
     .text ['.'] ++ digits Char.isDigit ++ opt exponent]

def isOctal (c : Char) : Bool := '0' ≤ c && c ≤ '7'

/-- An escaped character of a string. -/
def escape : Part :=
  .text ['\\'] ++ oneOf
    [.text ['\r', '\n'],
     .char (fun c => !(c == 'x' || c == 'u' || isOctal c)),
     .char isOctal ++ opt (.char isOctal) ++ opt (.char isOctal),
     .text ['x'] ++ .char isHex ++ .char isHex,
     .text ['u', '\x7b'] ++ run1 isHex ++ .text ['\x7d'],
     .text ['u'] ++ .char isHex ++ .char isHex ++ .char isHex ++ .char isHex]

/-- A string between quotes of a kind. White space and comments may stand before the closing one. -/
def quoted (quote : Char) : Part :=
  .text [quote] ++
    .many (.token .fragment (run1 fun c => !(c == quote || c == '\\' || c == '\n' || c == '\r')) <|>
      .token .escape escape) ++
    trivia ++ .text [quote]

def string : Part := trivia ++ (quoted '"' <|> quoted '\'')

/-- A template, which may hold expressions. -/
def templateParts : Part :=
  trivia ++ .text ['`'] ++
    .many (oneOf
      [run1 fun c => !(c == '`' || c == '$' || c == '\\' || c == '\x00'),
       .text ['$', '\x7b'] ++ rule .expressions ++ sign "\x7d",
       .text ['$'],
       escape]) ++
    .text ['`']

/-- A regular expression. -/
def regex : Part :=
  let escaped : Part := .text ['\\'] ++ .char fun c => c != '\n'
  let class_ : Part :=
    .text ['['] ++ .many (escaped <|> .char fun c => !(c == ']' || c == '\n' || c == '\\')) ++
      .text [']']
  trivia ++ .text ['/'] ++
    some1 (oneOf [class_, escaped, .char fun c => !(c == '/' || c == '\\' || c == '[' || c == '\n')]) ++
    .text ['/'] ++ .run fun c => 'a' ≤ c && c ≤ 'z'

end MarkupIds.Jsx
