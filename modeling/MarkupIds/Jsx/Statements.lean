import MarkupIds.Jsx.Expressions

/-! Statements and declarations. -/

namespace MarkupIds.Jsx

open Grammar.Pattern

/-- Words that start a statement of their own and no expression. -/
def statementWords : List String :=
  ["if", "for", "while", "do", "switch", "try", "with", "break", "continue", "return", "throw",
   "debugger", "var", "const", "enum", "interface"]

def blockForm : Part := sign "\x7b" ++ .many (rule .statement) ++ sign "\x7d"

def condition : Part :=
  sign "(" ++ rule .expression ++ (ofType <|> .many (sign "," ++ rule .expression)) ++
    sign ")"

def initialValue : Part := sign "=" ++ .unless (.char fun c => c == '=' || c == '>') ++ rule .expression

/-- A name or names with a type and a value. -/
def declarator : Part :=
  (anyName ++ sign "!" ++ ofType) <|>
    (binding ++ opt ofType ++ opt initialValue)
where
  binding : Part := (ahead (sign "[" <|> sign "\x7b") ++ rule .pattern) <|> anyName

def variableStatement : Part :=
  (word "var" <|> word "let" <|> word "const") ++ listed declarator ++ semicolon

/-- A function with a name. Without a body it is only announced. -/
def functionDeclaration : Part :=
  opt (word "async") ++ word "function" ++ opt (sign "*") ++ anyName ++ rule .callSignature ++
    (rule .block <|> semicolon)

def classDeclaration : Part :=
  .many (rule .decorator) ++ opt (word "abstract") ++ word "class" ++
    nameExcept ["extends", "implements"] ++ opt (rule .typeParameters) ++ heritage ++
    rule .classBody

def enumeration : Part :=
  opt (word "const") ++ word "enum" ++ anyName ++ sign "\x7b" ++
    opt (listed (rule .propertyName ++ opt initialValue) ++ opt (sign ",")) ++ sign "\x7d"

def interfaceDeclaration : Part :=
  word "interface" ++ anyName ++ opt (rule .typeParameters) ++
    opt (word "extends" ++ listed (dottedName ++ opt (rule .typeArguments))) ++ rule .objectType

def typeAlias : Part :=
  word "type" ++ anyName ++ opt (rule .typeParameters) ++ sign "=" ++ rule .type ++ semicolon

def moduleDeclaration : Part :=
  (word "module" ++ (string <|> dottedName) <|> word "namespace" ++ dottedName) ++
    (rule .block <|> semicolon)

/-- A name for something in another module. -/
def importAlias : Part :=
  word "import" ++ anyName ++ sign "=" ++ word "require" ++ sign "(" ++ string ++ sign ")" ++
      semicolon <|>
    word "import" ++ anyName ++ sign "=" ++ dottedName ++ semicolon

/-- Something that is declared elsewhere. -/
def ambientDeclaration : Part :=
  word "declare" ++
    oneOf
      [word "global" ++ rule .block,
       rule .declaration,
       word "module" ++ sign "." ++ anyName ++ ofType ++ semicolon]

def declarationForm : Part :=
  oneOf
    [functionDeclaration, classDeclaration, enumeration, variableStatement, interfaceDeclaration, typeAlias,
     moduleDeclaration, importAlias, ambientDeclaration]

def exportedName : Part := string <|> anyName

/-- A name in braces, with the name that it gets. -/
def specifier : Part :=
  oneOf
    [(word "type" <|> word "typeof") ++ exportedName ++ opt (word "as" ++ exportedName) ++
       ahead (sign "," <|> sign "\x7d"),
     exportedName ++ opt (word "as" ++ exportedName)]

def specifiers : Part :=
  sign "\x7b" ++ opt (listed specifier ++ opt (sign ",")) ++ sign "\x7d"

def source : Part :=
  word "from" ++ string ++ opt ((word "with" <|> word "assert") ++ objectLiteral)

/-- What a module takes from another. -/
def importStatement : Part :=
  let clause : Part :=
    oneOf
      [sign "*" ++ word "as" ++ anyName,
       specifiers,
       anyName ++ opt (sign "," ++ (sign "*" ++ word "as" ++ anyName <|> specifiers))]
  word "import" ++
    oneOf
      [(word "type" <|> word "typeof") ++ clause ++ source,
       clause ++ source,
       string ++ opt ((word "with" <|> word "assert") ++ objectLiteral)] ++
    semicolon

/-- What a module gives to others. -/
def exportStatement : Part :=
  .many (rule .decorator) ++ word "export" ++
    oneOf
      [word "default" ++ (rule .declaration <|> rule .expression ++ semicolon),
       sign "*" ++ opt (word "as" ++ exportedName) ++ source ++ semicolon,
       word "type" ++ specifiers ++ opt source ++ semicolon,
       specifiers ++ opt source ++ semicolon,
       sign "=" ++ rule .expression ++ semicolon,
       word "as" ++ word "namespace" ++ anyName ++ semicolon,
       rule .declaration]

/-- A loop over the parts of a value, or one with a condition. -/
def forStatement : Part :=
  let kind : Part := word "var" <|> word "let" <|> word "const"
  let each : Part :=
    (kind ++ declarator.binding ++ opt ofType ++ opt initialValue <|> rule .operand) ++
      (word "in" <|> word "of") ++ rule .expressions
  let counted : Part :=
    oneOf [kind ++ listed declarator, rule .expressions, .empty] ++ sign ";" ++
      opt (rule .expressions) ++ sign ";" ++ opt (rule .expressions)
  word "for" ++ opt (word "await") ++ sign "(" ++
    (each ++ sign ")" <|> counted ++ sign ")") ++ rule .statement

/-- A choice among cases. -/
def switchStatement : Part :=
  word "switch" ++ condition ++ sign "\x7b" ++
    .many ((word "case" ++ upToColon (rule .expressions) (listed (rule .plainExpression)) <|>
        word "default" ++ sign ":") ++
      .many (.unless (word "case" <|> word "default") ++ rule .statement)) ++
    sign "\x7d"

/-- A block that may fail. -/
def tryStatement : Part :=
  word "try" ++ rule .block ++
    opt (word "catch" ++
      opt (sign "(" ++ rule .pattern ++ opt ofType ++ sign ")") ++ rule .block) ++
    opt (word "finally" ++ rule .block)

def valueAndEnd : Part := .given endsHere <|> opt (rule .expressions) ++ semicolon

def expressionStatement : Part :=
  .unless (oneOf (statementWords.map word)) ++ rule .expressions ++ semicolon

/-- A statement. -/
def statementForm : Part :=
  opt (trivia ++ foreignComment) ++
    oneOf
      [sign ";",
       blockForm,
       word "if" ++ condition ++ rule .statement ++ opt (word "else" ++ rule .statement),
       forStatement,
       word "while" ++ condition ++ rule .statement,
       word "do" ++ rule .statement ++ word "while" ++ condition ++ opt semicolon,
       switchStatement,
       tryStatement,
       word "with" ++ condition ++ rule .statement,
       (word "break" <|> word "continue") ++ (.given endsHere <|> opt anyName ++ semicolon),
       word "return" ++ valueAndEnd,
       word "throw" ++ rule .expressions ++ semicolon,
       word "debugger" ++ semicolon,
       exportStatement,
       importStatement,
       rule .declaration,
       nameExcept (statementWords ++ operandWords) ++ sign ":" ++ rule .statement,
       expressionStatement]

/-- Something said of a class or of one of its members. -/
def decoratorForm : Part :=
  sign "@" ++
    oneOf
      [sign "(" ++ rule .expression ++ sign ")",
       dottedName ++ opt (opt (rule .typeArguments) ++ rule .arguments)]

/-- A parameter of a function. -/
def parameter : Part :=
  .many (rule .decorator) ++
    .many ((oneOf (["public", "private", "protected", "override", "readonly"].map word)) ++
      ahead (trivia ++ .char fun c => isNameStart c || c == '[' || c == '\x7b')) ++
    rule .pattern ++ opt (sign "?") ++ opt ofType ++ opt initialValue

def parameterList : Part :=
  sign "(" ++ opt (listed parameter ++ opt (sign ",")) ++ sign ")"

def callSignatureForm : Part :=
  opt (rule .typeParameters) ++ rule .parameters ++ opt (sign ":" ++ resultType)

/-- A member of a class. -/
def classMember : Part :=
  let words := ["public", "private", "protected", "static", "override", "readonly", "abstract",
    "declare", "accessor", "async", "get", "set"]
  let stop := sign "," <|> semicolon
  oneOf
    [sign ";",
     word "static" ++ rule .block,
     .many (rule .decorator) ++ .many (modifier words) ++
       oneOf
         [opt (sign "*") ++ rule .propertyName ++ opt (sign "?") ++ rule .callSignature ++
            (rule .block ++ opt semicolon <|> stop),
          rule .propertyName ++ opt (sign "?" <|> sign "!") ++ opt ofType ++
            opt initialValue ++ stop,
          indexSignature ++ stop]]

def classBodyForm : Part := sign "\x7b" ++ .many classMember ++ sign "\x7d"

def interpreterLine : Part := .text ['#', '!'] ++ .run fun c => c != '\n'

def programForm : Part := opt interpreterLine ++ .many (rule .statement) ++ trivia

/-- What the rules say. -/
def grammar : Rule → Part
  | .program => programForm
  | .statement => statementForm
  | .block => blockForm
  | .declaration => declarationForm
  | .expressions => listed (rule .expression)
  | .expression => expressionForm false
  | .plainExpression => expressionForm true
  | .operand => operandForm false
  | .plainOperand => operandForm true
  | .pattern => patternForm
  | .type => typeExpression
  | .typeArguments => typeArgumentList
  | .typeParameters => typeParameterList
  | .objectType => objectTypeForm
  | .parameters => parameterList
  | .callSignature => callSignatureForm
  | .classBody => classBodyForm
  | .arguments => argumentList
  | .template => templateParts
  | .decorator => decoratorForm
  | .propertyName => propertyNameForm
  | .element => elementForm
  | .jsxExpression => expressionInBraces

end MarkupIds.Jsx
