import MarkupIds.Jsx.Types

/-! Elements: tags with attributes, and text, references and expressions between them. -/

namespace MarkupIds.Jsx

open Grammar.Pattern

def isPlainStart (c : Char) : Bool := c.isAlpha || c == '_' || c == '$'

def isPlainChar (c : Char) : Bool := isPlainStart c || c.isDigit

def hyphenated : Part :=
  .char isPlainStart ++ .run isPlainChar ++ .text ['-'] ++ .run fun c => isPlainChar c || c == '-'

def tagWord : Part := hyphenated <|> nameChars

/-- The name of an element: of one part, of a namespace and a part, or of parts with points between
them. -/
def elementName : Part :=
  oneOf
    [tagWord ++ trivia ++ .text [':'] ++ trivia ++ tagWord,
     hyphenated,
     nameChars ++ .many (trivia ++ .text ['.'] ++ trivia ++ nameChars)]

def attributeName : Part :=
  (tagWord ++ trivia ++ .text [':'] ++ trivia ++ tagWord) <|> tagWord

/-- A reference to a character. -/
def characterReference : Part :=
  let digit : Part := .char Char.isDigit
  let hex : Part := .char isHex
  let letter : Part := .char Char.isAlpha
  let upTo (n : Nat) (p : Part) : Part := p ++ (List.replicate (n - 1) (opt p)).foldr (· ++ ·) .empty
  .text ['&'] ++
    oneOf [.text ['#'] ++ .char (fun c => c == 'x' || c == 'X') ++ upTo 6 hex ++ .text [';'],
      .text ['#'] ++ upTo 5 digit ++ .text [';'], upTo 30 letter ++ .text [';']]

/-- The value of an attribute in quotes of a kind. An ampersand that starts no reference takes the
next character with it. -/
def attributeString (quote : Char) : Part :=
  .text [quote] ++
    .token .fragment (.many (oneOf
      [run1 fun c => !(c == quote || c == '&'),
       characterReference,
       .text ['&'] ++ .char fun c => !(c == '#' || c.isAlpha)])) ++
    .text [quote]

/-- The value of an attribute. -/
def attributeValue : Part :=
  oneOf
    [trivia ++ .branch .string (attributeString '"' <|> attributeString '\''),
     rule .jsxExpression, rule .element]

def tagAttribute : Part :=
  .branch .attribute (.token .attributeName attributeName ++ opt (sign "=" ++ attributeValue))

/-- A start tag up to its end: nothing for a fragment, or a name and attributes. -/
def openingTag : Part :=
  .branch .opening (
    .text ['<'] ++
      opt (foundTrivia ++ .token .name elementName ++
        opt (foundTrivia ++ .branch .typeArguments typeArgumentList) ++
        .many (foundTrivia ++ (tagAttribute <|> rule .jsxExpression))))

def textBetween : Part :=
  .token .text (run1 fun c => !("<>\x7b\x7d&".toList.contains c || c == '\x00'))

def closingTag : Part :=
  trivia ++ .text ['<', '/'] ++ trivia ++ opt elementName ++ sign ">"

/-- The content of an element. -/
def elementContent : Part :=
  .many (oneOf
    [foreignComment,
     textBetween,
     .token .reference characterReference,
     .unless (.text ['<', '/']) ++ rule .element,
     rule .jsxExpression])

def elementForm : Part :=
  trivia ++ .branch .element (
    openingTag ++ (sign "/>" <|> (sign ">" ++ elementContent ++ closingTag)))

/-- An expression in braces. A string that stands alone in them is found. -/
def expressionInBraces : Part :=
  trivia ++ .branch .expression (
    .text ['\x7b'] ++
      oneOf
        [trivia ++ .branch .string (quoted '"' <|> quoted '\'') ++ sign "\x7d",
         rule .expressions ++ sign "\x7d",
         sign "..." ++ rule .expression ++ sign "\x7d",
         sign "\x7d"])

end MarkupIds.Jsx
