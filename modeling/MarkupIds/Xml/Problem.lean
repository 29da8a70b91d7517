/-! What a reader of XML finds wrong with a document, and where. -/

namespace MarkupIds.Xml

/-- How much a problem matters: a fatal one ends the reading, an error makes the document unfit, and
a warning does neither. -/
inductive Severity where
  | warning
  | error
  | fatal
deriving DecidableEq, Repr

/-- What is wrong. -/
inductive Cause where
  | documentEmpty
  | startTagExpected
  | extraContent
  -- the declaration
  | versionMissing
  | unsupportedVersion (version : String)
  | blankNeeded
  | equalRequired
  | stringNotStarted
  | stringNotClosed
  | badEncodingName
  | badStandalone
  | declarationNotFinished
  -- instructions and comments
  | targetMissing
  | targetReserved
  | targetMisplaced
  | targetDiscouraged
  | targetWithColon (name : String)
  | instructionSpace (name : String)
  | instructionNotFinished (name : String)
  | hyphens (content : String)
  | hyphensAtStart
  | hyphensAfterText
  | commentNotFinished
  | commentNotFinishedAfter (content : String)
  | commentChar (code : Nat)
  -- character data
  | nullChar
  | dataChar (code : Nat)
  | sectionEndInData
  | sectionNotStarted
  | sectionNotFinished (content : String)
  -- references
  | hexadecimalExpected
  | decimalExpected
  | codeTooLarge (inString : Bool)
  | codeInvalid (inString : Bool) (code : Nat)
  | referenceWithoutName (inString : Bool)
  | referenceNotClosed
  | entityUndefined (name : String)
  | entityUnknownOutside (name : String)
  | entityUnparsed (name : String)
  | entityExternal (name : String)
  | entityLoop
  | entityWithMarkup (name : String)
  | notBalanced
  -- tags
  | elementNameInvalid
  | tagNotFinished (name : String) (line : Nat)
  | tagMismatch (opened : String) (line : Nat) (closed : String)
  | closeExpected
  | endOfData (name : String) (line : Nat)
  | attributeNameInvalid
  | attributeWithoutValue (name : String)
  | attributeSpace
  | attributeRedefined (name : String)
  | attributeRedefinedIn (name uri : String)
  | valueNotStarted
  | valueNotFinished
  | valueWithBracket
  | valueChar
  | spaceValue (value : String)
  | idInvalid (value : String)
  | idRedefined (value : String)
  -- namespaces
  | nameMalformed (name : String)
  | prefixUndefined (ns name : String)
  | attributePrefixUndefined (ns name element : String)
  | namespaceInvalid (uri : String)
  | namespaceRelative (uri : String)
  | prefixedNamespaceInvalid (name uri : String)
  | xmlNamespaceAsDefault
  | xmlPrefixMisused
  | xmlNamespaceMisused
  | xmlnsRedefined
  | xmlnsNamespaceReused
  | namespaceEmpty (name : String)
  -- the document type
  | doctypeSpace
  | doctypeNameMissing
  | doctypeNotFinished
  | subsetContent
  | spaceAfter (what : String)
  | spaceBefore (what : String)
  | literalNotStarted
  | literalNotFinished
  | uriRequired
  | publicIdRequired
  | uriFragment
  | entityNameMissing
  | entityNameWithColon (name : String)
  | entityValueRequired
  | entityValueNotFinished
  | entityValueChar
  | entityNotFinished (name : String)
  | parameterReferenceWithoutName
  | parameterReferenceNotClosed
  | parameterInValue
  | elementNameMissing
  | elementContentExpected
  | contentNameExpected
  | contentNotFinished
  | contentSeparator (wanted : Char)
  | mixedNameExpected
  | mixedNotFinished
  | listElementMissing
  | listAttributeMissing
  | enumerationNotStarted
  | enumerationTokenExpected
  | enumerationNotFinished
  | notationNameExpected
  | notationNameMissing
  | notationNameWithColon (name : String)
  | notationNotFinished
  | elementRedeclared (name : String)
  | notationRedeclared (name : String)
  | attributeRedeclared (name element : String)
  | secondIdAttribute (name element : String)
deriving DecidableEq, Repr

namespace Cause

def message : Cause → String
  | documentEmpty => "Document is empty"
  | startTagExpected => "Start tag expected, '<' not found"
  | extraContent => "Extra content at the end of the document"
  | versionMissing => "Malformed declaration expecting version"
  | unsupportedVersion version => "Unsupported version '" ++ version ++ "'"
  | blankNeeded => "Blank needed here"
  | equalRequired => "expected '='"
  | stringNotStarted => "String not started expecting ' or \""
  | stringNotClosed => "String not closed expecting \" or '"
  | badEncodingName => "Invalid XML encoding name"
  | badStandalone => "standalone accepts only 'yes' or 'no'"
  | declarationNotFinished => "parsing XML declaration: '?>' expected"
  | targetMissing => "xmlParsePI : no target name"
  | targetReserved => "Invalid PI name"
  | targetMisplaced => "XML declaration allowed only at the start of the document"
  | targetDiscouraged => "xmlParsePITarget: invalid name prefix 'xml'"
  | targetWithColon name => "colons are forbidden from PI names '" ++ name ++ "'"
  | instructionSpace name => "ParsePI: PI " ++ name ++ " space expected"
  | instructionNotFinished name => "ParsePI: PI " ++ name ++ " never end ..."
  | hyphens content => "Double hyphen within comment: <!--" ++ content
  | hyphensAtStart => "Double hyphen within comment"
  | hyphensAfterText => "Comment must not contain '--' (double-hyphen)"
  | commentNotFinished => "Comment not terminated"
  | commentNotFinishedAfter content => "Comment not terminated \n<!--" ++ content
  | commentChar code => "xmlParseComment: invalid xmlChar value " ++ toString code
  | nullChar => "Invalid character: Char 0x0 out of allowed range\n"
  | dataChar code => "PCDATA invalid Char value " ++ toString code
  | sectionEndInData => "Sequence ']]>' not allowed in content"
  | sectionNotStarted => "Unregistered error message"
  | sectionNotFinished content => "CData section not finished\n" ++ content
  | hexadecimalExpected => "CharRef: invalid hexadecimal value"
  | decimalExpected => "CharRef: invalid decimal value"
  | codeTooLarge inString =>
    (if inString then "xmlParseStringCharRef" else "xmlParseCharRef") ++
      ": character reference out of bounds"
  | codeInvalid inString code =>
    (if inString then "xmlParseStringCharRef" else "xmlParseCharRef") ++
      ": invalid xmlChar value " ++ toString code
  | referenceWithoutName inString =>
    (if inString then "xmlParseStringEntityRef" else "xmlParseEntityRef") ++ ": no name"
  | referenceNotClosed => "EntityRef: expecting ';'"
  | entityUndefined name => "Entity '" ++ name ++ "' not defined"
  | entityUnknownOutside name => "Entity '" ++ name ++ "' not defined"
  | entityUnparsed name => "Entity reference to unparsed entity " ++ name
  | entityExternal name => "Attribute references external entity '" ++ name ++ "'"
  | entityLoop => "Detected an entity reference loop"
  | entityWithMarkup name =>
    "'<' in entity '" ++ name ++ "' is not allowed in attributes values"
  | notBalanced => "chunk is not well balanced"
  | elementNameInvalid => "StartTag: invalid element name"
  | tagNotFinished name line =>
    "Couldn't find end of Start Tag " ++ name ++ " line " ++ toString line
  | tagMismatch opened line closed =>
    "Opening and ending tag mismatch: " ++ opened ++ " line " ++ toString line ++ " and " ++ closed
  | closeExpected => "expected '>'"
  | endOfData name line => "Premature end of data in tag " ++ name ++ " line " ++ toString line
  | attributeNameInvalid => "error parsing attribute name"
  | attributeWithoutValue name => "Specification mandates value for attribute " ++ name
  | attributeSpace => "attributes construct error"
  | attributeRedefined name => "Attribute " ++ name ++ " redefined"
  | attributeRedefinedIn name uri =>
    "Namespaced Attribute " ++ name ++ " in '" ++ uri ++ "' redefined"
  | valueNotStarted => "AttValue: \" or ' expected"
  | valueNotFinished => "AttValue: ' expected"
  | valueWithBracket => "Unescaped '<' not allowed in attributes values"
  | valueChar => "invalid character in attribute value"
  | spaceValue value =>
    "Invalid value \"" ++ value ++ "\" for xml:space : \"default\" or \"preserve\" expected"
  | idInvalid value => "xml:id : attribute value " ++ value ++ " is not an NCName"
  | idRedefined value => "ID " ++ value ++ " already defined"
  | nameMalformed name => "Failed to parse QName '" ++ name ++ "'"
  | prefixUndefined ns name =>
    "Namespace prefix " ++ ns ++ " on " ++ name ++ " is not defined"
  | attributePrefixUndefined ns name element =>
    "Namespace prefix " ++ ns ++ " for " ++ name ++ " on " ++ element ++ " is not defined"
  | namespaceInvalid uri => "xmlns: '" ++ uri ++ "' is not a valid URI"
  | namespaceRelative uri => "xmlns: URI " ++ uri ++ " is not absolute"
  | prefixedNamespaceInvalid name uri =>
    "xmlns:" ++ name ++ ": '" ++ uri ++ "' is not a valid URI"
  | xmlNamespaceAsDefault => "xml namespace URI cannot be the default namespace"
  | xmlPrefixMisused => "xml namespace prefix mapped to wrong URI"
  | xmlNamespaceMisused => "xml namespace URI mapped to wrong prefix"
  | xmlnsRedefined => "redefinition of the xmlns prefix is forbidden"
  | xmlnsNamespaceReused => "reuse of the xmlns namespace name is forbidden"
  | namespaceEmpty name => "xmlns:" ++ name ++ ": Empty XML namespace is not allowed"
  | doctypeSpace => "Space required after 'DOCTYPE'"
  | doctypeNameMissing => "xmlParseDocTypeDecl : no DOCTYPE name !"
  | doctypeNotFinished => "DOCTYPE improperly terminated"
  | subsetContent => "Content error in the internal subset"
  | spaceAfter what => "Space required after " ++ what
  | spaceBefore what => "Space required before " ++ what
  | literalNotStarted => "SystemLiteral \" or ' expected"
  | literalNotFinished => "Unfinished System or Public ID \" or ' expected"
  | uriRequired => "SYSTEM or PUBLIC, the URI is missing"
  | publicIdRequired => "PUBLIC, the Public Identifier is missing"
  | uriFragment => "Fragment not allowed"
  | entityNameMissing => "xmlParseEntityDecl: no name"
  | entityNameWithColon name => "colons are forbidden from entities names '" ++ name ++ "'"
  | entityValueRequired => "Entity value required"
  | entityValueNotFinished => "EntityValue: \" or ' expected"
  | entityValueChar => "invalid character in entity value"
  | entityNotFinished name => "xmlParseEntityDecl: entity " ++ name ++ " not terminated"
  | parameterReferenceWithoutName => "PEReference: no name"
  | parameterReferenceNotClosed => "PEReference: expecting ';'"
  | parameterInValue => "PEReferences forbidden in internal subset"
  | elementNameMissing => "xmlParseElementDecl: no name for Element"
  | elementContentExpected => "xmlParseElementDecl: 'EMPTY', 'ANY' or '(' expected"
  | contentNameExpected => "ContentDecl : Name or '(' expected"
  | contentNotFinished => "ContentDecl : ',' '|' or ')' expected"
  | contentSeparator wanted =>
    "xmlParseElementChildrenContentDecl : '" ++ String.singleton wanted ++ "' expected"
  | mixedNameExpected => "xmlParseElementMixedContentDecl : Name expected"
  | mixedNotFinished => "MixedContentDecl : '|' or ')*' expected"
  | listElementMissing => "ATTLIST: no name for Element"
  | listAttributeMissing => "ATTLIST: no name for Attribute"
  | enumerationNotStarted => "'(' required to start ATTLIST enumeration"
  | enumerationTokenExpected => "NmToken expected in ATTLIST enumeration"
  | enumerationNotFinished => "')' required to finish ATTLIST enumeration"
  | notationNameExpected => "Name expected in NOTATION declaration"
  | notationNameMissing => "NOTATION: Name expected here"
  | notationNameWithColon name => "colons are forbidden from notation names '" ++ name ++ "'"
  | notationNotFinished => "'>' required to close NOTATION declaration"
  | elementRedeclared name => "Redefinition of element " ++ name
  | notationRedeclared name => "xmlAddNotationDecl: " ++ name ++ " already defined"
  | attributeRedeclared name element =>
    "Attribute " ++ name ++ " of element " ++ element ++ ": already defined"
  | secondIdAttribute name element =>
    "Element " ++ element ++ " has too may ID attributes defined : " ++ name

def severity : Cause → Severity
  | unsupportedVersion version => if version.startsWith "1." then .warning else .fatal
  | targetDiscouraged | spaceValue _ | namespaceRelative _ | entityUnknownOutside _
  | attributeRedeclared .. => .warning
  | targetWithColon _ | entityNameWithColon _ | notationNameWithColon _ => .error
  | idInvalid _ | idRedefined _ | elementRedeclared _ | notationRedeclared _
  | secondIdAttribute .. => .error
  | nameMalformed _ | prefixUndefined .. | attributePrefixUndefined .. | namespaceInvalid _ => .error
  | prefixedNamespaceInvalid .. | xmlNamespaceAsDefault | xmlPrefixMisused => .error
  | xmlNamespaceMisused | xmlnsRedefined | xmlnsNamespaceReused | namespaceEmpty _ => .error
  | attributeRedefinedIn .. => .error
  | _ => .fatal

end Cause

/-- A problem at a place; both line and column count from one. -/
structure Problem where
  cause : Cause
  line : Nat
  column : Nat
deriving DecidableEq, Repr

namespace Problem

def message (p : Problem) : String :=
  p.cause.message ++ ", line " ++ toString p.line ++ ", column " ++ toString p.column

end Problem

end MarkupIds.Xml
