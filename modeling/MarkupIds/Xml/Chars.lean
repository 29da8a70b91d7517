/-! The characters of XML: which may stand in a document, in a name and in a public identifier. -/

namespace MarkupIds.Xml

def isSpace (c : Char) : Bool := c == ' ' || c == '\t' || c == '\n' || c == '\r'

/-- A character that may stand in a document. -/
def isXmlChar (c : Char) : Bool :=
  let n := c.toNat
  n == 9 || n == 10 || n == 13 || (0x20 ≤ n && n ≤ 0xD7FF) || (0xE000 ≤ n && n ≤ 0xFFFD) ||
    0x10000 ≤ n

/-- Code points at which a name may start, the colon apart. -/
def nameStartRanges : List (Nat × Nat) :=
  [(0x41, 0x5A), (0x5F, 0x5F), (0x61, 0x7A), (0xC0, 0xD6), (0xD8, 0xF6), (0xF8, 0x2FF),
   (0x370, 0x37D), (0x37F, 0x1FFF), (0x200C, 0x200D), (0x2070, 0x218F), (0x2C00, 0x2FEF),
   (0x3001, 0xD7FF), (0xF900, 0xFDCF), (0xFDF0, 0xFFFD), (0x10000, 0xEFFFF)]

/-- Code points that may stand behind the start of a name. -/
def nameFurtherRanges : List (Nat × Nat) :=
  [(0x2D, 0x2E), (0x30, 0x39), (0xB7, 0xB7), (0x300, 0x36F), (0x203F, 0x2040)]

def within (ranges : List (Nat × Nat)) (c : Char) : Bool :=
  ranges.any fun r => r.1 ≤ c.toNat && c.toNat ≤ r.2

/-- A character at which a name without colons may start. -/
def isLocalStart (c : Char) : Bool := within nameStartRanges c

def isLocalChar (c : Char) : Bool := isLocalStart c || within nameFurtherRanges c

def isNameStart (c : Char) : Bool := c == ':' || isLocalStart c

def isNameChar (c : Char) : Bool := c == ':' || isLocalChar c

/-- A text is a name without colons. -/
def isLocalName : List Char → Bool
  | [] => false
  | c :: s => isLocalStart c && s.all isLocalChar

def isPublicChar (c : Char) : Bool :=
  c == ' ' || c == '\r' || c == '\n' || ('a' ≤ c && c ≤ 'z') || ('A' ≤ c && c ≤ 'Z') ||
    ('0' ≤ c && c ≤ '9') || "-'()+,./:=?;!*#@$_%".toList.contains c

end MarkupIds.Xml
