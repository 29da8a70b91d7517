import MarkupIds.Jsx.Lexical

/-! Types: what may stand behind a colon, between angle brackets, and in the body of an interface. -/

namespace MarkupIds.Jsx

open Grammar.Pattern

def dottedName : Part := anyName ++ .many (sign "." ++ anyName)

def typeArgumentList : Part := sign "<" ++ listed (rule .type) ++ opt (sign ",") ++ sign ">"

def ofType : Part := sign ":" ++ rule .type

def typePredicate : Part := anyName ++ word "is" ++ rule .type

def assertion : Part := word "asserts" ++ (typePredicate <|> anyName)

def resultType : Part := oneOf [assertion, typePredicate, rule .type]

/-- A value that stands for its type. -/
def typeQuery : Part :=
  word "typeof" ++ (word "import" ++ rule .arguments <|> anyName) ++
    .many (oneOf
      [sign "?." ++ anyName, sign "." ++ (privateName <|> anyName),
       sameLine (.text ['[']) ++ (number <|> string <|> rule .type) ++ sign "]"]) ++
    opt (rule .typeArguments)

/-- A template whose parts are types. -/
def templateType : Part :=
  trivia ++ .text ['`'] ++
    .many (oneOf
      [run1 fun c => !(c == '`' || c == '$' || c == '\\'),
       .text ['$', '\x7b'] ++ rule .type ++ sign "\x7d", .text ['$'], escape]) ++
    .text ['`']

/-- A member of a tuple. -/
def tupleMember : Part :=
  oneOf
    [sign "..." ++ anyName ++ ofType,
     anyName ++ sign "?" ++ ofType,
     anyName ++ ofType,
     sign "..." ++ rule .type,
     rule .type ++ opt (sign "?")]

/-- A type without what may follow it. -/
def typeBase : Part :=
  oneOf
    [sign "(" ++ rule .type ++ sign ")",
     rule .objectType,
     sign "[" ++ holed tupleMember ++ sign "]",
     typeQuery,
     word "unique" ++ word "symbol",
     word "import" ++ rule .arguments ++ .many (sign "." ++ anyName) ++ opt (rule .typeArguments),
     string,
     opt (sign "-" <|> sign "+") ++ number,
     templateType,
     sign "*",
     dottedName ++ opt (rule .typeArguments)]

/-- A type with its prefixes and with square brackets behind it, on the same line. -/
def typeItem : Part :=
  .many (oneOf [word "keyof", word "readonly", sign "?"]) ++
    oneOf
      [word "infer" ++ anyName ++ opt (word "extends" ++ rule .type ++ .unless (sign "?")),
       typeBase] ++
    .many (sameLine (.text ['[']) ++ opt (rule .type) ++ sign "]")

def functionType : Part :=
  opt (rule .typeParameters) ++ rule .parameters ++ sign "=>" ++ resultType

def constructorType : Part :=
  opt (word "abstract") ++ word "new" ++ opt (rule .typeParameters) ++ rule .parameters ++
    sign "=>" ++ rule .type

def typePart : Part := oneOf [functionType, constructorType, typeItem]

def typeJoin : Part :=
  (sign "|" ++ .unless (.text ['|'])) <|> (sign "&" ++ .unless (.text ['&']))

def typeExpression : Part :=
  .many typeJoin ++ typePart ++ .many (some1 typeJoin ++ typePart) ++
    opt (word "extends" ++ rule .type ++ sign "?" ++ rule .type ++ sign ":" ++ rule .type)

/-- A type that stands for others, with bounds and a default. -/
def typeParameter : Part :=
  .many ((word "const" <|> word "in" <|> word "out") ++ ahead anyName) ++ anyName ++
    opt ((word "extends" <|> sign ":") ++ rule .type) ++ opt (sign "=" ++ rule .type)

def typeParameterList : Part := sign "<" ++ listed typeParameter ++ opt (sign ",") ++ sign ">"

def propertyNameForm : Part :=
  oneOf [anyName, privateName, string, number, sign "[" ++ rule .expression ++ sign "]"]

/-- A word in front of a member, which is no name of one itself. -/
def modifier (words : List String) : Part :=
  oneOf (words.map word) ++ ahead (trivia ++
    .char fun c => isNameStart c || c == '[' || c == '"' || c == '\'' || c.isDigit || c == '#' ||
      c == '*' || c == '\x7b')

/-- An index of a type, or a rule for all names of another type. -/
def indexSignature : Part :=
  opt (opt (sign "-" <|> sign "+") ++ word "readonly") ++ sign "[" ++
    oneOf
      [anyName ++ word "in" ++ rule .type ++ opt (word "as" ++ rule .type),
       anyName ++ ofType] ++
    sign "]" ++ opt (oneOf [sign "-?", sign "+?", sign "?"]) ++ ofType

/-- A member of an interface. -/
def typeMember : Part :=
  oneOf
    [indexSignature,
     opt (word "abstract") ++ word "new" ++ opt (rule .typeParameters) ++ rule .parameters ++
       opt ofType,
     rule .callSignature,
     .many (modifier ["public", "private", "protected", "static", "override", "readonly", "async",
       "get", "set", "abstract"]) ++ opt (sign "*") ++ rule .propertyName ++ opt (sign "?") ++
       oneOf [rule .callSignature, opt ofType]]

/-- The body of an interface, or a type of objects. -/
def objectTypeForm : Part :=
  let stop := sign "," <|> semicolon
  (sign "\x7b|" <|> sign "\x7b") ++ opt (sign "," <|> sign ";") ++
    opt (typeMember ++ .many (stop ++ typeMember) ++ opt stop) ++ (sign "|\x7d" <|> sign "\x7d")

end MarkupIds.Jsx
