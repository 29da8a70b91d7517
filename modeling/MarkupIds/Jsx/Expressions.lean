import MarkupIds.Jsx.Elements

/-! Expressions. Only what may be assigned to is kept apart from the rest, by a flag that every
operand leaves; precedence decides nothing about what is found. -/

namespace MarkupIds.Jsx

open Grammar.Pattern

def operandWords : List String :=
  ["function", "class", "typeof", "void", "delete", "await", "this", "super", "null", "true", "false",
   "import"]

def argumentList : Part :=
  sign "(" ++ holed (sign "..." ++ rule .expression <|> rule .expression) ++ sign ")"

/-- An expression. Where none of its functions tells its result, it is a plain one: a colon behind
it then belongs to what it stands in. -/
def expressionRule (isPlain : Bool) : Part := rule (if isPlain then .plainExpression else .expression)

def operandRule (isPlain : Bool) : Part := rule (if isPlain then .plainOperand else .operand)

/-- A function without a name for its result. -/
def arrowFunction (isPlain : Bool) : Part :=
  let result : Part := if isPlain then .empty else opt (sign ":" ++ resultType)
  oneOf
      [word "async" ++ opt (rule .typeParameters) ++ rule .parameters ++ result ++ sign "=>",
       word "async" ++ nameExcept operandWords ++ sign "=>",
       opt (rule .typeParameters) ++ rule .parameters ++ result ++ sign "=>",
       nameExcept operandWords ++ sign "=>"] ++
    (rule .block <|> expressionRule isPlain) ++ .flag false

def functionExpression : Part :=
  opt (word "async") ++ word "function" ++ opt (sign "*") ++ opt anyName ++ rule .callSignature ++
    rule .block ++ .flag false

def heritage : Part :=
  opt (word "extends" ++ listed (rule .operand ++ opt (rule .typeArguments))) ++
    opt (word "implements" ++ listed (rule .type))

def classExpression : Part :=
  .many (rule .decorator) ++ word "class" ++
    opt (nameExcept ["extends", "implements"]) ++ opt (rule .typeParameters) ++ heritage ++
    rule .classBody ++ .flag false

def objectMethod : Part :=
  .many (modifier ["public", "private", "protected", "static", "override", "readonly", "async", "get",
    "set"]) ++
    opt (sign "*") ++ rule .propertyName ++ opt (sign "?") ++ rule .callSignature ++ rule .block

def objectMember : Part :=
  oneOf
    [sign "..." ++ rule .expression,
     rule .propertyName ++ sign ":" ++ rule .expression,
     objectMethod,
     anyName]

def objectLiteral : Part := sign "\x7b" ++ holed objectMember ++ sign "\x7d" ++ .flag true

def parenthesized : Part :=
  sign "(" ++ rule .expression ++ (ofType <|> .many (sign "," ++ rule .expression)) ++
    sign ")" ++ .flag true

/-- Something made by `new`. -/
def newExpression : Part :=
  word "new" ++
    oneOf [sign "." ++ word "target",
      some1 (word "new") ++ rule .operand,
      oneOf
          [parenthesized, word "this", functionExpression, classExpression,
           word "import" ++ sign "." ++ anyName, nameExcept operandWords] ++
        .many (oneOf
          [sign "." ++ (privateName <|> anyName),
           sign "[" ++ rule .expressions ++ sign "]",
           sameLine (.text ['!']) ++ .unless (.text ['='])]) ++
        opt (rule .typeArguments) ++ opt (rule .arguments)] ++
    .flag false

/-- What an operand starts with. -/
def operandBase (isPlain : Bool) : Part :=
  oneOf
    [arrowFunction isPlain,
     parenthesized,
     sign "[" ++ holed (sign "..." ++ rule .expression <|> rule .expression) ++ sign "]" ++ .flag true,
     objectLiteral,
     ahead (sign "\x7b" <|> sign "[") ++ rule .pattern ++ ahead (sign "=" ++ .unless (.text ['='])) ++ .flag true,
     rule .element ++ .flag false,
     string ++ .flag false,
     rule .template ++ .flag false,
     number ++ .flag false,
     regex ++ .flag false,
     functionExpression,
     classExpression,
     newExpression,
     word "import" ++ (ahead (sign "(") <|> sign "." ++ anyName) ++ .flag false,
     oneOf (["this", "super", "null", "true", "false"].map word) ++ .flag false,
     privateName ++ ahead (word "in") ++ .flag false,
     nameExcept operandWords ++ .flag true]

/-- Nothing, where a list of types may end an operand: what follows starts no operand. -/
def afterInstantiation : Part :=
  .unless (trivia ++ .char fun c =>
    isNameStart c || c.isDigit || "\"'\x60[\x7b(<+-!~#@/".toList.contains c)

/-- What may stand behind an operand and belongs to it. -/
def operandTail : Part :=
  oneOf
    [sign "?." ++ .unless (.char Char.isDigit) ++
       oneOf
         [sign "[" ++ rule .expressions ++ sign "]" ++ .flag true,
          opt (rule .typeArguments) ++ rule .arguments ++ .flag false,
          (privateName <|> anyName) ++ .flag true],
     sign "." ++ (privateName <|> anyName) ++ .flag true,
     sign "[" ++ rule .expressions ++ sign "]" ++ .flag true,
     opt (rule .typeArguments) ++ rule .arguments ++ .flag false,
     rule .template ++ .flag false,
     sameLine (.text ['!']) ++ .unless (.text ['=']) ++ .flag true,
     rule .typeArguments ++ afterInstantiation ++ .flag false]

def operandSign : Part :=
  oneOf
    ([sign "++", sign "--", sign "!", sign "~", sign "-", sign "+"] ++
      ["typeof", "void", "delete", "await"].map word)

/-- An operand with all that belongs to it. -/
def operandForm (isPlain : Bool) : Part :=
  oneOf
    [word "yield" ++ oneOf [sign "*" ++ expressionRule isPlain,
       .unless (.given endsHere) ++ expressionRule isPlain, .empty] ++ .flag false,
     operandSign ++ operandRule isPlain,
     operandBase isPlain ++ .many operandTail ++
       opt (sameLine (.text ['+', '+'] <|> .text ['-', '-']) ++ .flag false)]

def assignmentSign : Part :=
  oneOf
    ((["+=", "-=", "*=", "/=", "%=", "^=", "&=", "|=", ">>=", ">>>=", "<<=", "**=", "&&=", "||=",
        "??="].map sign) ++
      [sign "=" ++ .unless (.char fun c => c == '=' || c == '>')])

/-- A sign between operands. -/
def binarySign : Part :=
  oneOf
    (["===", "!==", "==", "!=", "<=", ">="].map sign ++
      ([">>>", ">>", "<<", "&&", "||", "??", "**", "&", "^", "|", "*", "/", "%"].map fun s =>
        sign s ++ .unless (.text ['='])) ++
      [sign "+" ++ .unless (.char fun c => c == '=' || c == '+'),
       sign "-" ++ .unless (.char fun c => c == '=' || c == '-'),
       sign "<", sign ">", word "instanceof", word "in"])

/-- The question mark of a choice. -/
def choiceSign : Part :=
  sign "?" ++ .given fun s =>
    match s with
    | '?' :: _ => false
    | '.' :: c :: _ => c.isDigit
    | '.' :: _ => false
    | s =>
      match s.dropWhile isSpace with
      | c :: _ => !(c == ':' || c == ')' || c == ',')
      | [] => true

def upToColon (a plain : Part) : Part := (a ++ sign ":") <|> (plain ++ sign ":")

/-- What may follow an operand in an expression. -/
def expressionTail (isPlain : Bool) : Part :=
  oneOf
    [.flagged ++ assignmentSign ++ expressionRule isPlain,
     sameLine (.text "as".toList ++ .unless (.char isNameChar)) ++ rule .type ++ .flag false,
     sameLine (.text "satisfies".toList ++ .unless (.char isNameChar)) ++ rule .type ++ .flag false,
     binarySign ++ operandRule isPlain,
     choiceSign ++ upToColon (rule .expression) (rule .plainExpression) ++ expressionRule isPlain ++
       .flag false]

def expressionForm (isPlain : Bool) : Part := operandRule isPlain ++ .many (expressionTail isPlain)

/-- Something that takes a value: a name, or names in the place of parts of the value. -/
def patternForm : Part :=
  let item := rule .pattern ++ opt (sign "=" ++ rule .expression)
  oneOf
    [sign "..." ++ rule .pattern,
     sign "[" ++ holed item ++ sign "]",
     sign "\x7b" ++
       holed (oneOf
         [sign "..." ++ rule .pattern,
          rule .propertyName ++ sign ":" ++ item,
          rule .pattern ++ opt (sign "=" ++ rule .expression)]) ++
       sign "\x7d",
     anyName ++ .many (oneOf
       [sign "." ++ (privateName <|> anyName), sign "[" ++ rule .expressions ++ sign "]"])]

end MarkupIds.Jsx
