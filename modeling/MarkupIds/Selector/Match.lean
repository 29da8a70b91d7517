import MarkupIds.Selector.Named
import MarkupIds.Selector.Written
import MarkupIds.Selector.Parse

/-! Which elements meet a selector. -/

namespace MarkupIds.Selector

open MarkupIds.Markup (Node Place Tag Attribute)

def folded (s : List Char) : List Char := s.map Text.lowerSingle

/-- A value meets a test. Nothing starts with, ends with or contains an empty text; an end of the
value also stands before a line feed that ends it. -/
def ValueTest.meets (test : ValueTest) (wanted value : List Char) : Bool :=
  match test with
  | .startsWith => !wanted.isEmpty && wanted.isPrefixOf value
  | .endsWith =>
    !wanted.isEmpty && (wanted.isSuffixOf value || (wanted ++ ['\n']).isSuffixOf value)
  | .contains => !wanted.isEmpty && Text.occursIn wanted value
  | .word => !wanted.isEmpty && !wanted.any isSpace && (wordsOf value).contains wanted
  | .dashed => value == wanted || value == wanted ++ ['\n'] || (wanted ++ ['-']).isPrefixOf value
  | .equals => value == wanted || value == wanted ++ ['\n']

namespace Scope

def namespaceOf? (s : Scope) (nsPrefix : String) : Option String :=
  if s.inHtml && nsPrefix == "html" then some htmlUri else none

/-- The element has the name and the namespace that are asked for. -/
def meetsTag (s : Scope) (t : Tag) (nsPrefix : Option String) (name : String) : Bool :=
  let inNamespace :=
    match nsPrefix with
    | none => true
    | some "" => s.uriOf t == ""
    | some "*" => true
    | some other => s.namespaceOf? other == some (s.uriOf t)
  let wanted := if s.isXml then name else Text.asciiLower name
  inNamespace && (wanted == "*" || wanted == s.nameOf t)

/-- The value of the attribute that a test is about. -/
def testedValue? (s : Scope) (t : Tag) (test : AttributeTest) : Option String :=
  let sameName (given : String) : Bool :=
    if s.isXml then given == test.name else Text.asciiLower given == Text.asciiLower test.name
  let byWholeName := (t.attributes.find? fun a => sameName a.name).map (·.value)
  if !s.hasNamespaces || test.nsPrefix == "" then byWholeName
  else
    match s.namespaceOf? test.nsPrefix with
    | some uri =>
      (t.attributes.find? fun a => a.uri == some uri && a.localName.any sameName).map (·.value)
    | none => if test.nsPrefix == "*" then byWholeName else none

def meetsAttribute (s : Scope) (t : Tag) (test : AttributeTest) : Bool :=
  match s.testedValue? t test, test.value with
  | none, _ => false
  | some _, none => true
  | some value, some (op, wanted) =>
    let ignored := test.caseRule == .ignored || (test.caseRule == .ignoredOutsideXml && !s.isXml)
    if ignored then op.meets (folded wanted.toList) (folded value.toList)
    else op.meets wanted.toList value.toList

def declaredLanguage? (s : Scope) (t : Tag) : Option String :=
  let ofHtml := !s.hasNamespaces || t.uri == some htmlUri
  let fits (a : Attribute) : Bool :=
    if ofHtml then (if s.isXml then a.name else Text.asciiLower a.name) == "lang"
    else a.uri == some xmlUri && a.localName == some "lang"
  (t.attributes.find? fits).map (·.value)

/-- The language that the head of a document declares for all of it, where `top` holds the
document. -/
def headLanguage? (s : Scope) (top : Place) : Option String :=
  let child? (p : Place) (name : String) : Option Place :=
    (s.children s.isHtml p).find? fun q => s.nameOf q.tag == name && s.isHtmlTag q.tag
  let declaredBy (q : Place) : Option String :=
    let isLanguage := q.tag.attributes.any fun a =>
      Text.asciiLower a.name == "http-equiv" && Text.asciiLower a.value == "content-language"
    let content := (q.tag.attributes.find? fun a => Text.asciiLower a.name == "content").map (·.value)
    if s.nameOf q.tag == "meta" && isLanguage then content.filter (· != "") else none
  (child? top "html").bind fun html => (child? html "head").bind fun head =>
    if s.isHtmlTag head.tag then head.childPlaces.findSome? declaredBy else none

/-- The language of an element: the nearest one that is declared and not empty, or the one of the
document's head. -/
def languageOf? (s : Scope) (p : Place) : Option String :=
  let chain := p :: s.ancestors s.isHtml p
  let declared := chain.filterMap fun q => s.declaredLanguage? q.tag
  match declared.find? (· != ""), declared with
  | some language, _ => some language
  | none, language :: _ => some language
  | none, [] =>
    match chain.getLast? with
    | none => none
    | some top =>
      if !s.isXml || (top.tag.uri == some htmlUri && top.tag.name == "html") then
        s.headLanguage? top
      else none

/-- The text of an element meets all tests. Whether whole texts or pieces are looked at is decided
by the first test. -/
def meetsTexts (s : Scope) (p : Place) (tests : List TextTest) : Bool :=
  match tests with
  | [] => true
  | first :: _ =>
    if first.own then
      let pieces := if s.isHtml && s.isFrame p.tag then [] else Node.ownTexts p.children
      tests.all fun test =>
        test.wanted.any fun w =>
          if test.own then pieces.any (Text.occursIn w.toList) else pieces.contains w.toList
    else
      let whole := s.textOf s.isHtml p
      tests.all fun test =>
        test.wanted.any fun w =>
          if test.own then whole.any fun c => Text.occursIn w.toList [c]
          else Text.occursIn w.toList whole

/-- The siblings after an element, without one that follows it at once. -/
def farSiblings (p : Place) : List Place :=
  match p.after with
  | .element .. :: _ => p.later.drop 1
  | _ => p.later

/-- The elements that may stand to a place as a combinator says. Looking ahead for a sibling passes
over the node right after the element. -/
def candidates (s : Scope) (ahead : Bool) (combinator : Combinator) (p : Place) : List Place :=
  match ahead, combinator with
  | false, .descendant => s.ancestors s.inHtml p
  | false, .child => (s.ancestors s.inHtml p).take 1
  | false, .sibling => p.earlier
  | false, .adjacent => p.earlier.take 1
  | true, .descendant => s.inside s.inHtml p
  | true, .child => s.children s.inHtml p
  | true, .sibling => farSiblings p
  | true, .adjacent => p.later.take 1

end Scope

def countAmong (fromEnd : Bool) (counted : Place → Bool) (p : Place) : Nat :=
  ((if fromEnd then p.later else p.earlier).filter counted).length + 1

mutual

/-- One condition is met. -/
def Condition.meets (s : Scope) (p : Place) : Condition → Bool
  | .tag nsPrefix name => s.meetsTag p.tag nsPrefix name
  | .id value => s.value? p.tag "id" == some value || (value == "" && (s.value? p.tag "id").isNone)
  | .cls value => (wordsOf ((s.value? p.tag "class").getD "").toList).contains value.toList
  | .attribute test => s.meetsAttribute p.tag test
  | .named which => s.meets p which
  | .nth formula fromEnd ofType among =>
    let sameType (q : Place) : Bool :=
      s.nameOf q.tag == s.nameOf p.tag && s.uriOf q.tag == s.uriOf p.tag
    match among with
    | none =>
      formula.admits (countAmong fromEnd (fun q => !ofType || sameType q) p)
    | some list =>
      list.meets s p && formula.admits (countAmong fromEnd (fun q => list.meets s q) p)
  | .lang ranges =>
    match s.languageOf? p with
    | some language => ranges.any fun r => Language.inRange r language
    | none => false
  | .direction rightToLeft => writtenRightToLeft? s p == some rightToLeft
  | .choice list => list.meets s p

def Condition.allMet (s : Scope) (p : Place) : List Condition → Bool
  | [] => true
  | c :: rest => c.meets s p && Condition.allMet s p rest

def Compound.meets (s : Scope) (p : Place) : Compound → Bool
  | .never => false
  | .all conditions texts relation =>
    Condition.allMet s p conditions && s.meetsTexts p texts &&
      match relation with
      | none => true
      | some r => r.meets s p

def Compound.anyMet (s : Scope) (p : Place) : List Compound → Bool
  | [] => false
  | c :: rest => c.meets s p || Compound.anyMet s p rest

def Relation.meets (s : Scope) (p : Place) : Relation → Bool
  | .mk ahead combinator other =>
    (s.candidates ahead combinator p).any fun q => other.meets s q

def Choice.meets (s : Scope) (p : Place) : Choice → Bool
  | .mk negated htmlOnly alternatives =>
    if htmlOnly then
      s.isHtml && (Compound.anyMet { s with inHtml := true } p alternatives != negated)
    else Compound.anyMet s p alternatives != negated

end

def ranksIn (selector : Choice) (isXml : Bool) (nodes : List Node) : List Nat :=
  let scope := Scope.ofDocument isXml nodes
  ((Place.allOf nodes).filter (selector.meets scope)).filterMap Place.rank

end MarkupIds.Selector
