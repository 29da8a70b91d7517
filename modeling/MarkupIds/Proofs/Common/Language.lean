import Mathlib.Data.List.Forall2
import MarkupIds.Html.Tree
import MarkupIds.Markup.Tree
import MarkupIds.Options.Basic
import MarkupIds.Proofs.Text.Lower
import MarkupIds.Xml.Chars

/-! The documents that are the same in XML and in HTML: one tree of elements with text between them. Trees that
a reader makes of such a document stand for its content, and have the same elements at the same places. -/

namespace MarkupIds.Common

open MarkupIds.Markup (Node Numbered)

/-- An attribute as it is written: the white space before it, its name, the white space on either side of the
equals sign, and the value, which stands in double quotes. -/
structure Attribute where
  lead : List Char
  name : List Char
  before : List Char := []
  behind : List Char := []
  value : List Char
deriving DecidableEq, Repr

/-- A start tag as it is written, without its end. -/
structure Tag where
  name : List Char
  attributes : List Attribute := []
  blanks : List Char := []
deriving DecidableEq, Repr

/-- Content of an element: text, or else text, an element, and the content behind it. The element is a pair of tags
with content between them, or a single one; `gap` is the white space at the end of an end tag. -/
inductive Content where
  | text (s : List Char)
  | pair (before : List Char) (tag : Tag) (inside : Content) (gap : List Char) (after : Content)
  | single (before : List Char) (tag : Tag) (after : Content)
deriving DecidableEq, Repr

def Attribute.text (a : Attribute) : List Char :=
  a.lead ++ (a.name ++ (a.before ++ '=' :: (a.behind ++ '"' :: (a.value ++ ['"']))))

namespace Tag

/-- The start tag with its end, which closes the element at once or does not. -/
def text (t : Tag) (closed : Bool) : List Char :=
  '<' :: (t.name ++ (t.attributes.flatMap Attribute.text ++ (t.blanks ++ if closed then ['/', '>'] else ['>'])))

/-- The end tag. -/
def endText (t : Tag) (gap : List Char) : List Char := '<' :: '/' :: (t.name ++ (gap ++ ['>']))

end Tag

/-- The text of some content. -/
def Content.written : Content → List Char
  | .text s => s
  | .pair before tag inside gap after =>
    before ++ (tag.text false ++ (inside.written ++ (tag.endText gap ++ after.written)))
  | .single before tag after => before ++ (tag.text true ++ after.written)

def IsSpaces (s : List Char) : Prop := ∀ c ∈ s, Xml.isSpace c = true

/-- A letter from a to z. -/
def isLowerLetter (c : Char) : Bool := 'a' ≤ c && c ≤ 'z'

/-- The name is the same in lower case, and the value does not hold its quote, nor a number too long for HTML. -/
structure Attribute.Plain (a : Attribute) : Prop where
  lead_ne : a.lead ≠ []
  lead : IsSpaces a.lead
  name : isAttrName a.name = true
  lowered : Text.lower a.name = a.name
  before : IsSpaces a.before
  behind : IsSpaces a.behind
  value : '"' ∉ a.value
  readable : Html.overlong? a.value = none

/-- The name is made of letters from a to z, and HTML has no rule of its own for the element. -/
structure Tag.Plain (t : Tag) : Prop where
  name_ne : t.name ≠ []
  name : ∀ c ∈ t.name, isLowerLetter c = true
  content : String.ofList t.name ∉ Html.voidElements
  cooked : Html.isRaw (String.ofList t.name) = false
  attributes : ∀ a ∈ t.attributes, a.Plain
  blanks : IsSpaces t.blanks

/-- Text without markup and references. -/
def IsText (s : List Char) : Prop := '<' ∉ s ∧ '&' ∉ s

namespace Content

/-- All tags are plain, and only text stands between them. What XML forbids beyond that, such as a name that is given
twice in a tag, is left to its own check. -/
def Plain : Content → Prop
  | .text s => IsText s
  | .pair before tag inside gap after => IsText before ∧ tag.Plain ∧ inside.Plain ∧ IsSpaces gap ∧ after.Plain
  | .single before tag after => IsText before ∧ tag.Plain ∧ after.Plain

/-- The content is a document: one element, perhaps with white space around it. -/
def IsDocument : Content → Prop
  | .pair before _ _ _ (.text after) => IsSpaces before ∧ IsSpaces after
  | .single before _ (.text after) => IsSpaces before ∧ IsSpaces after
  | _ => False

/-- The texts that stand directly in the content. -/
def texts : Content → List (List Char)
  | .text s => [s]
  | .pair before _ _ _ after => before :: after.texts
  | .single before _ after => before :: after.texts

/-- The number of elements. -/
def count : Content → Nat
  | .text _ => 0
  | .pair _ _ inside _ after => 1 + inside.count + after.count
  | .single _ _ after => 1 + after.count

end Content

/-- An element with its place: its rank, and the ranks of the elements around it from the outside in. -/
structure Element where
  tag : Tag
  inside : Content
  outer : List Nat
  rank : Nat

/-- The elements of some content, where the first has the rank `rank`. -/
def Content.elements (outer : List Nat) (rank : Nat) : Content → List Element
  | .text _ => []
  | .pair _ tag inside _ after =>
    ⟨tag, inside, outer, rank⟩ :: (inside.elements (outer ++ [rank]) (rank + 1) ++
      after.elements outer (rank + 1 + inside.count))
  | .single _ tag after => ⟨tag, .text [], outer, rank⟩ :: after.elements outer (rank + 1)

/-- Nodes stand for content: an element for each element, `T` telling what its tag is, and nodes for each text,
`F` telling which. -/
inductive Stands (T : Markup.Tag → Tag → Prop) (F : List Char → List Node → Prop) : Content → List Node → Prop where
  | text {s : List Char} {nodes : List Node} : F s nodes → Stands T F (.text s) nodes
  | pair {before gap : List Char} {texts children nodes : List Node} {t : Markup.Tag} {tag : Tag}
      {inside after : Content} : F before texts → T t tag → Stands T F inside children → Stands T F after nodes →
      Stands T F (.pair before tag inside gap after) (texts ++ .element t children :: nodes)
  | single {before : List Char} {texts nodes : List Node} {t : Markup.Tag} {tag : Tag} {after : Content} :
      F before texts → T t tag → Stands T F after nodes →
      Stands T F (.single before tag after) (texts ++ .element t [] :: nodes)

section Elements

variable {T : Markup.Tag → Tag → Prop} {F : List Char → List Node → Prop}

theorem listFrom_append_of_texts {texts : List Node} (h : ∀ node ∈ texts, node.isElement = false) (outer : List Nat)
    (rank : Nat) (nodes : List Node) :
    Numbered.listFrom outer rank (texts ++ nodes) = Numbered.listFrom outer rank nodes ∧
      Node.countElements (texts ++ nodes) = Node.countElements nodes := by
  induction texts with
  | nil => exact ⟨rfl, rfl⟩
  | cons node texts ih =>
      obtain ⟨hnode, htexts⟩ := List.forall_mem_cons.mp h
      obtain ⟨hlist, hcount⟩ := ih htexts
      cases node with
      | element tag children => cases hnode
      | text kind content =>
          rw [List.cons_append, Numbered.listFrom, Node.countElements, hcount]
          exact ⟨hlist, Nat.zero_add _⟩

/-- What an element of a tree has in common with the element that it stands for. -/
structure StandsFor (T : Markup.Tag → Tag → Prop) (F : List Char → List Node → Prop) (e : Numbered) (x : Element) :
    Prop where
  tag : T e.tag x.tag
  children : Stands T F x.inside e.children
  outer : e.outer = x.outer
  rank : e.rank = x.rank

/-- Nodes that stand for content have its elements. -/
theorem Stands.elements (hF : ∀ s nodes, F s nodes → ∀ node ∈ nodes, node.isElement = false) (hnil : F [] [])
    {c : Content} {nodes : List Node} (h : Stands T F c nodes) (outer : List Nat) (rank : Nat) :
    List.Forall₂ (StandsFor T F) (Numbered.listFrom outer rank nodes) (c.elements outer rank) ∧
      Node.countElements nodes = c.count := by
  induction h generalizing outer rank with
  | text htexts =>
      obtain ⟨hlist, hcount⟩ := listFrom_append_of_texts (hF _ _ htexts) outer rank []
      rw [List.append_nil] at hlist hcount
      rw [hlist, hcount]
      exact ⟨.nil, rfl⟩
  | @pair before gap texts children nodes t tag inside after htexts htag hinside hafter ihInside ihAfter =>
      obtain ⟨hlist, hcount⟩ := listFrom_append_of_texts (hF _ _ htexts) outer rank (.element t children :: nodes)
      obtain ⟨hchildren, hcountInside⟩ := ihInside (outer ++ [rank]) (rank + 1)
      obtain ⟨hnodes, hcountAfter⟩ := ihAfter outer (rank + 1 + inside.count)
      rw [hlist, hcount, Numbered.listFrom, Numbered.ofNode, Node.elementCount, hcountInside, Content.elements,
        Node.countElements, Node.elementCount, hcountInside, hcountAfter, Content.count, ← Nat.add_assoc]
      exact ⟨.cons ⟨htag, hinside, rfl, rfl⟩ (List.rel_append hchildren hnodes), rfl⟩
  | @single before texts nodes t tag after htexts htag hafter ihAfter =>
      obtain ⟨hlist, hcount⟩ := listFrom_append_of_texts (hF _ _ htexts) outer rank (.element t [] :: nodes)
      obtain ⟨hnodes, hcountAfter⟩ := ihAfter outer (rank + 1)
      simp only [hlist, hcount, Numbered.listFrom, Numbered.ofNode, Node.elementCount, Content.elements,
        Node.countElements, hcountAfter, Content.count, List.nil_append, List.cons_append, Nat.add_zero]
      exact ⟨.cons ⟨htag, .text hnil, rfl, rfl⟩ hnodes, trivial⟩

end Elements

section Texts

open MarkupIds.Text (trim)

/-- The trimmed text of some nodes, as far as there is any. -/
def trimmed (pieces : List (List Char)) : List (List Char) := (pieces.map trim).filter fun piece => !piece.isEmpty

theorem trimmed_append (a b : List (List Char)) : trimmed (a ++ b) = trimmed a ++ trimmed b := by
  rw [trimmed, List.map_append, List.filter_append]
  rfl

/-- Nodes tell a text, up to white space around it. -/
def Tells (s : List Char) (nodes : List Node) : Prop :=
  (∀ node ∈ nodes, node.isElement = false) ∧ trimmed (nodes.filterMap Node.plainText?) = trimmed [s]

theorem tells_nil : Tells [] [] := ⟨List.forall_mem_nil _, rfl⟩

theorem tells_text (s : List Char) : Tells s [.text .plain s] :=
  ⟨List.forall_mem_singleton.mpr rfl, rfl⟩

/-- Children that stand for content have its text, each piece of it changed by `g`. -/
theorem Stands.trimmed {T : Markup.Tag → Tag → Prop} {g : List Char → List Char} {c : Content} {nodes : List Node}
    (h : Stands T (fun s => Tells (g s)) c nodes) :
    Common.trimmed (nodes.filterMap Node.plainText?) = Common.trimmed (c.texts.map g) := by
  have hafter {before : List Char} {texts nodes : List Node} {t : Markup.Tag} {children : List Node} {after : Content}
      (htexts : Tells (g before) texts)
      (ih : Common.trimmed (nodes.filterMap Node.plainText?) = Common.trimmed (after.texts.map g)) :
      Common.trimmed ((texts ++ .element t children :: nodes).filterMap Node.plainText?) =
        Common.trimmed ((before :: after.texts).map g) := by
    have hskip : (Node.element t children :: nodes).filterMap Node.plainText? = nodes.filterMap Node.plainText? := rfl
    rw [List.filterMap_append, trimmed_append, hskip, htexts.2, ih, ← trimmed_append]
    rfl
  induction h with
  | text htexts => exact htexts.2
  | pair htexts _ _ _ _ ih => exact hafter htexts ih
  | single htexts _ _ ih => exact hafter htexts ih

theorem StandsFor.ownText {T : Markup.Tag → Tag → Prop} {g : List Char → List Char} {e : Numbered} {x : Element}
    (h : StandsFor T (fun s => Tells (g s)) e x) : e.ownText = Node.joinTrimmed (x.inside.texts.map g) :=
  congrArg ([' '].intercalate ·) h.children.trimmed

end Texts

section Characters

theorem of_isLowerLetter {P : Char → Prop} (h : ∀ n < 128, isLowerLetter (Char.ofNat n) = true → P (Char.ofNat n))
    {c : Char} (hc : isLowerLetter c = true) : P c := by
  have hle : c ≤ 'z' := by simpa using (Bool.and_eq_true_iff.mp hc).2
  have hchar := h c.toNat (Nat.lt_of_le_of_lt hle (by decide))
  rw [Char.ofNat_toNat] at hchar
  exact hchar hc

theorem isLetter_of_isLowerLetter {c : Char} (h : isLowerLetter c = true) : Text.isLetter c = true := by
  rw [Text.isLetter, Bool.or_eq_true]
  exact .inl h

/-- Letters from a to z and hyphens are their own lower case. -/
theorem lower_of_letters {s : List Char} (h : ∀ c ∈ s, isLowerLetter c = true ∨ c = '-') : Text.lower s = s := by
  refine Text.lower_eq_self_iff.mpr fun c hc => ?_
  unfold Text.IsLow
  obtain hletter | rfl := h c hc
  · exact of_isLowerLetter (P := fun c => c ≠ 'Σ' ∧ Text.lowerChar c = [c]) (by decide +kernel) hletter
  · decide +kernel

theorem Tag.Plain.lower_name {t : Tag} (ht : t.Plain) : Text.lower t.name = t.name :=
  lower_of_letters fun c hc => .inl (ht.name c hc)

theorem isBlank_of_isSpace {c : Char} (h : Xml.isSpace c = true) : Text.isBlank c = true := by
  simp only [Xml.isSpace, Bool.or_eq_true, beq_iff_eq] at h
  obtain ((rfl | rfl) | rfl) | rfl := h <;> decide

theorem IsSpaces.all_isBlank {s : List Char} (h : IsSpaces s) : s.all Text.isBlank = true :=
  List.all_eq_true.mpr fun c hc => isBlank_of_isSpace (h c hc)

/-- What comes next is markup, or the end. -/
def AtMarkup (z : List Char) : Prop := ∀ c, z.head? = some c → c = '<'

theorem atMarkup_nil : AtMarkup [] := fun _ h => by cases h

theorem atMarkup_tag (t : Tag) (closed : Bool) (z : List Char) : AtMarkup (t.text closed ++ z) :=
  fun _ h => (Option.some.inj h).symm

theorem atMarkup_end (t : Tag) (gap z : List Char) : AtMarkup (t.endText gap ++ z) := fun _ h => (Option.some.inj h).symm

end Characters

end MarkupIds.Common
