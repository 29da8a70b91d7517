import Mathlib.Data.List.TakeWhile
import MarkupIds.Proofs.Html.StartTag
import MarkupIds.Markup.Escape
import MarkupIds.Proofs.Text.Cut
import MarkupIds.Html.Token
import MarkupIds.Options.Basic

/-! Start tags that are written plainly: a name, attributes that each stand behind white space, and the
end. A value stands in quotes, or bare without any quote in it. Such a tag is found again as it is
written, and attributes are put into it and taken out of it one by one. -/

namespace MarkupIds.Html

open MarkupIds.Text (isBlank isLetter)

/-- The end of a start tag. -/
def closing (closed : Bool) : List Char := if closed then ['/', '>'] else ['>']

/-- A value as it is written: the white space on either side of its sign, its quote if it has one, and
its content. -/
structure WrittenValue where
  before : List Char := []
  behind : List Char := []
  quote : Option Char
  content : List Char
deriving DecidableEq, Repr

/-- An attribute as it is written, with the white space before it. -/
structure WrittenAttribute where
  lead : List Char
  name : List Char
  value : Option WrittenValue
deriving DecidableEq, Repr

/-- A start tag as it is written. -/
structure WrittenTag where
  name : List Char
  items : List WrittenAttribute
  blanks : List Char
  closed : Bool
deriving DecidableEq, Repr

/-- A character of a value without quotes. -/
def isBareChar (c : Char) : Bool := !(isBlank c || c == '>' || c == '"' || c == '\'')

/-- A character of a name that ends at the same place for every reader. -/
def isTagChar (c : Char) : Bool := StartTag.isNameChar c && isNameChar c

namespace WrittenValue

/-- The content with its quotes. -/
def shown (v : WrittenValue) : List Char :=
  match v.quote with
  | some q => q :: (v.content ++ [q])
  | none => v.content

def text (v : WrittenValue) : List Char := v.before ++ '=' :: (v.behind ++ v.shown)

structure Plain (v : WrittenValue) : Prop where
  before : v.before.all isBlank = true
  behind : v.behind.all isBlank = true
  quoted : ∀ q, v.quote = some q → (q = '"' ∨ q = '\'') ∧ q ∉ v.content
  bare : v.quote = none → v.content ≠ [] ∧ v.content.all isBareChar = true ∧
    v.content.head? ≠ some '=' ∧ v.content.getLast? ≠ some '/'

end WrittenValue

namespace WrittenAttribute

def text (a : WrittenAttribute) : List Char :=
  a.lead ++ (a.name ++ (a.value.map WrittenValue.text).getD [])

/-- The value has no quotes. -/
def isBare (a : WrittenAttribute) : Bool := a.value.any (·.quote.isNone)

structure Plain (a : WrittenAttribute) : Prop where
  lead_ne : a.lead ≠ []
  lead : a.lead.all isBlank = true
  name_ne : a.name ≠ []
  name : a.name.all StartTag.isAttributeChar = true
  value : ∀ v, a.value = some v → v.Plain

/-- The attribute that carries an id. -/
def ofId (attr id : List Char) : WrittenAttribute :=
  ⟨[' '], attr, some { quote := some '"', content := Markup.escape id }⟩

/-- The attribute has a name, in whatever case. -/
def hasName (attr : List Char) (a : WrittenAttribute) : Bool := Text.lower a.name == Text.lower attr

end WrittenAttribute

namespace WrittenTag

/-- The tag in the parts in which it is looked for. -/
def parts (t : WrittenTag) : StartTag :=
  ⟨t.name, t.items.flatMap WrittenAttribute.text, t.blanks ++ closing t.closed⟩

def text (t : WrittenTag) : List Char := t.parts.text

/-- The name, the attributes and the end can be told apart. -/
structure Legible (t : WrittenTag) : Prop where
  letter : t.name.head?.any isLetter = true
  name : t.name.all StartTag.isNameChar = true
  items : ∀ a ∈ t.items, a.Plain
  blanks : t.blanks.all isBlank = true

/-- White space parts the name of the tag from what follows it for every reader, and a value without
quotes does not run into the slash of the end. -/
structure Plain (t : WrittenTag) : Prop where
  letter : t.name.head?.any isLetter = true
  name : t.name.all isTagChar = true
  items : ∀ a ∈ t.items, a.Plain
  blanks : t.blanks.all isBlank = true
  gaps : ∀ a ∈ t.items, a.lead.head?.any isNameChar = false
  gap : t.blanks.head?.any isNameChar = false
  last : t.closed = true → t.blanks = [] → ∀ a, t.items.getLast? = some a → a.isBare = false

theorem Plain.legible {t : WrittenTag} (ht : t.Plain) : t.Legible where
  letter := ht.letter
  name := List.all_eq_true.mpr fun c hc => (Bool.and_eq_true_iff.mp (List.all_eq_true.mp ht.name c hc)).1
  items := ht.items
  blanks := ht.blanks

/-- The tag with an id, in place of the attributes of the same name where they are overwritten. -/
def withId (t : WrittenTag) (overwrite : Bool) (attr id : List Char) : WrittenTag :=
  { t with items := (if overwrite then t.items.filter fun a => !a.hasName attr else t.items) ++
      [.ofId attr id] }

end WrittenTag

section Found

open StartTag (splitTail tail? quoteAfter endOutside?)

/-- Nothing in the piece ends a tag when it is followed by `z`. -/
def Passed (quote : Option Char) (piece z : List Char) (quote' : Option Char) : Prop :=
  splitTail quote (piece ++ z) = (splitTail quote' z).map fun r => (piece ++ r.1, r.2)

theorem Passed.nil (quote : Option Char) (z : List Char) : Passed quote [] z quote := by
  simp [Passed]

theorem Passed.append {q q' q'' : Option Char} {a b z : List Char} (ha : Passed q a (b ++ z) q')
    (hb : Passed q' b z q'') : Passed q (a ++ b) z q'' := by
  unfold Passed at ha hb ⊢
  rw [List.append_assoc, ha, hb, Option.map_map]
  simp [Function.comp_def]

theorem Passed.cons {q q' : Option Char} {c : Char} {a z : List Char}
    (hc : endOutside? q (c :: (a ++ z)) = none) (ha : Passed (quoteAfter q c) a z q') :
    Passed q (c :: a) z q' := by
  unfold Passed at ha ⊢
  rw [List.cons_append, splitTail, hc, ha, Option.map_map]
  rfl

theorem tail?_eq_none {s u : List Char} {c : Char} (h : s.dropWhile isBlank = c :: u) (hc : c ≠ '>')
    (hslash : c = '/' → u.head? ≠ some '>') : tail? s = none := by
  unfold tail?
  rw [List.span_eq_takeWhile_dropWhile, h]
  dsimp only
  split
  next heq => exact absurd (List.cons.inj heq).1 hc
  next heq =>
    obtain ⟨rfl, rfl⟩ := List.cons.inj heq
    exact absurd rfl (hslash rfl)
  next => rfl

/-- What follows white space and makes it something else than the white space before an end. -/
def GoesOn (z : List Char) : Prop :=
  ∃ c u, z = c :: u ∧ isBlank c = false ∧ c ≠ '>' ∧ (c = '/' → u.head? ≠ some '>')

theorem GoesOn.tail?_eq_none {z : List Char} (h : GoesOn z) {blanks : List Char}
    (hblanks : blanks.all isBlank = true) : tail? (blanks ++ z) = none := by
  obtain ⟨c, u, rfl, hc, hbracket, hslash⟩ := h
  have hdrop : (blanks ++ c :: u).dropWhile isBlank = c :: u := by
    rw [List.dropWhile_append_of_pos (List.all_eq_true.mp hblanks),
      List.dropWhile_cons_of_neg (by simp [hc])]
  exact Html.tail?_eq_none hdrop hbracket hslash

theorem quoteAfter_none {c : Char} (hdouble : c ≠ '"') (hsingle : c ≠ '\'') :
    quoteAfter none c = none := by
  simp [quoteAfter, hdouble, hsingle]

theorem ne_quote_of_isBlank {c : Char} (h : isBlank c = true) : c ≠ '"' ∧ c ≠ '\'' := by
  constructor <;> rintro rfl <;> exact absurd h (by decide)

theorem passed_blanks {blanks z : List Char} (hblanks : blanks.all isBlank = true) (hz : GoesOn z) :
    Passed none blanks z none := by
  induction blanks with
  | nil => exact Passed.nil none z
  | cons c blanks ih =>
      have hall := hblanks
      rw [List.all_cons, Bool.and_eq_true] at hall
      obtain ⟨hdouble, hsingle⟩ := ne_quote_of_isBlank hall.1
      refine Passed.cons (hz.tail?_eq_none hblanks) ?_
      rw [quoteAfter_none hdouble hsingle]
      exact ih hall.2

/-- A run of characters of which none is white space, a quote or the bracket, and no slash is the last. -/
theorem passed_bare {s z : List Char} (hs : s.all isBareChar = true) (hlast : s.getLast? ≠ some '/') :
    Passed none s z none := by
  induction s with
  | nil => exact Passed.nil none z
  | cons c s ih =>
      rw [List.all_cons, Bool.and_eq_true] at hs
      obtain ⟨⟨⟨hblank, hbracket⟩, hdouble⟩, hsingle⟩ : ((isBlank c = false ∧ c ≠ '>') ∧ c ≠ '"') ∧
          c ≠ '\'' := by
        simpa [isBareChar] using hs.1
      have hslash : c = '/' → (s ++ z).head? ≠ some '>' := by
        rintro rfl
        cases s with
        | nil => exact absurd rfl hlast
        | cons d s =>
            have hd : d ≠ '>' := by
              rintro rfl
              exact absurd (List.all_eq_true.mp hs.2 '>' List.mem_cons_self) (by decide)
            simpa using hd
      have hgoes : GoesOn (c :: (s ++ z)) := ⟨c, s ++ z, rfl, hblank, hbracket, hslash⟩
      refine Passed.cons (hgoes.tail?_eq_none List.all_nil) ?_
      rw [quoteAfter_none hdouble hsingle]
      refine ih hs.2 fun h => hlast ?_
      cases s with
      | nil => cases h
      | cons d s => rw [List.getLast?_cons_cons, h]

theorem passed_quoted {q : Char} (hq : q = '"' ∨ q = '\'') {content : List Char} (hcontent : q ∉ content)
    (z : List Char) : Passed none (q :: (content ++ [q])) z none := by
  have hquote : isBlank q = false ∧ q ≠ '>' ∧ q ≠ '/' ∧ quoteAfter none q = some q := by
    obtain rfl | rfl := hq <;> decide
  obtain ⟨hblank, hbracket, hslash, hopen⟩ := hquote
  have hgoes : GoesOn (q :: ((content ++ [q]) ++ z)) :=
    ⟨q, _, rfl, hblank, hbracket, fun h => absurd h hslash⟩
  refine Passed.cons (hgoes.tail?_eq_none List.all_nil) ?_
  rw [hopen]
  have hinside (c : Char) : quoteAfter (some q) c = if c == q then none else some q := rfl
  induction content with
  | nil =>
      refine Passed.cons rfl ?_
      rw [hinside, if_pos (beq_self_eq_true q)]
      exact Passed.nil none z
  | cons c content ih =>
      obtain ⟨hc, hcontent⟩ := not_or.mp (mt List.mem_cons.mpr hcontent)
      refine Passed.cons rfl ?_
      rw [hinside, if_neg (by simpa using Ne.symm hc)]
      exact ih hcontent ⟨q, _, rfl, hblank, hbracket, fun h => absurd h hslash⟩

theorem isBareChar_of_isAttributeChar {c : Char} (h : StartTag.isAttributeChar c = true) :
    isBareChar c = true ∧ c ≠ '/' ∧ c ≠ '=' := by
  simp [StartTag.isAttributeChar] at h
  simp [isBareChar]
  tauto

namespace WrittenAttribute.Plain

variable {a : WrittenAttribute} (ha : a.Plain)

include ha

theorem name_bare : a.name.all isBareChar = true :=
  List.all_eq_true.mpr fun c hc =>
    (isBareChar_of_isAttributeChar (List.all_eq_true.mp ha.name c hc)).1

theorem name_last : a.name.getLast? ≠ some '/' := fun h =>
  (isBareChar_of_isAttributeChar (List.all_eq_true.mp ha.name '/' (List.mem_of_getLast? h))).2.1 rfl

theorem goesOn_name (z : List Char) : GoesOn (a.name ++ z) := by
  cases hname : a.name with
  | nil => exact absurd hname ha.name_ne
  | cons c name =>
      have hc := isBareChar_of_isAttributeChar (List.all_eq_true.mp ha.name c (hname ▸ List.mem_cons_self))
      simp [isBareChar] at hc
      exact ⟨c, name ++ z, rfl, hc.1.1.1.1, hc.1.1.1.2, fun h => absurd h hc.2.1⟩

end WrittenAttribute.Plain

namespace WrittenValue.Plain

variable {v : WrittenValue} (hv : v.Plain)

include hv

theorem goesOn_shown (z : List Char) : GoesOn (v.shown ++ z) := by
  unfold WrittenValue.shown
  cases hquote : v.quote with
  | some q =>
      obtain ⟨hq, -⟩ := hv.quoted q hquote
      have hmark : isBlank q = false ∧ q ≠ '>' ∧ q ≠ '/' := by obtain rfl | rfl := hq <;> decide
      exact ⟨q, (v.content ++ [q]) ++ z, rfl, hmark.1, hmark.2.1, fun h => absurd h hmark.2.2⟩
  | none =>
      obtain ⟨hne, hall, -, hlast⟩ := hv.bare hquote
      cases hcontent : v.content with
      | nil => exact absurd hcontent hne
      | cons c content =>
          rw [hcontent, List.all_cons, Bool.and_eq_true] at hall
          have hc := hall.1
          simp [isBareChar] at hc
          refine ⟨c, content ++ z, rfl, hc.1.1.1, hc.1.1.2, ?_⟩
          rintro rfl
          cases content with
          | nil => exact absurd (by rw [hcontent]; rfl) hlast
          | cons d content =>
              have hd : d ≠ '>' := by
                rintro rfl
                exact absurd (List.all_eq_true.mp hall.2 '>' List.mem_cons_self) (by decide)
              simpa using hd

theorem passed (z : List Char) : Passed none v.text z none := by
  have hsign : Passed none ['='] (v.behind ++ v.shown ++ z) none := passed_bare (by decide) (by decide)
  have hgoes : GoesOn ('=' :: (v.behind ++ v.shown ++ z)) :=
    ⟨'=', _, rfl, by decide, by decide, fun h => absurd h (by decide)⟩
  have hshown : Passed none v.shown z none := by
    unfold WrittenValue.shown
    cases hquote : v.quote with
    | some q => exact passed_quoted (hv.quoted q hquote).1 (hv.quoted q hquote).2 z
    | none => exact passed_bare (hv.bare hquote).2.1 (hv.bare hquote).2.2.2
  refine (passed_blanks hv.before (z := '=' :: (v.behind ++ v.shown) ++ z) hgoes).append ?_
  exact hsign.append ((passed_blanks hv.behind (hv.goesOn_shown z)).append hshown)

end WrittenValue.Plain

theorem WrittenAttribute.Plain.passed {a : WrittenAttribute} (ha : a.Plain) (z : List Char) :
    Passed none a.text z none := by
  have hvalue : Passed none ((a.value.map WrittenValue.text).getD []) z none := by
    cases hv : a.value with
    | none => exact Passed.nil none z
    | some v => exact (ha.value v hv).passed z
  refine (passed_blanks ha.lead ?_).append ((passed_bare ha.name_bare ha.name_last).append hvalue)
  rw [List.append_assoc]
  exact ha.goesOn_name _

theorem passed_items {items : List WrittenAttribute} (h : ∀ a ∈ items, a.Plain) (z : List Char) :
    Passed none (items.flatMap WrittenAttribute.text) z none := by
  induction items with
  | nil => exact Passed.nil none z
  | cons a items ih =>
      rw [List.flatMap_cons]
      exact ((h a List.mem_cons_self).passed _).append
        (ih fun b hb => h b (List.mem_cons_of_mem a hb))

theorem tail?_closing {blanks : List Char} (hblanks : blanks.all isBlank = true) (closed : Bool)
    (rest : List Char) : tail? (blanks ++ closing closed ++ rest) = some (blanks ++ closing closed) := by
  have hend (c : Char) (u : List Char) (hc : isBlank c = false) :
      (blanks ++ c :: u).takeWhile isBlank = blanks ∧ (blanks ++ c :: u).dropWhile isBlank = c :: u := by
    rw [List.takeWhile_append_of_pos (List.all_eq_true.mp hblanks),
      List.dropWhile_append_of_pos (List.all_eq_true.mp hblanks),
      List.takeWhile_cons_of_neg (by simp [hc]), List.dropWhile_cons_of_neg (by simp [hc])]
    exact ⟨List.append_nil _, rfl⟩
  unfold tail?
  rw [List.append_assoc, List.span_eq_takeWhile_dropWhile]
  cases closed with
  | false =>
      obtain ⟨htake, hdrop⟩ := hend '>' rest (by decide)
      simp only [closing, Bool.false_eq_true, if_false, List.singleton_append, htake, hdrop]
  | true =>
      obtain ⟨htake, hdrop⟩ := hend '/' ('>' :: rest) (by decide)
      simp only [closing, if_true, List.cons_append, List.nil_append, htake, hdrop]

theorem isNameChar_head? {s : List Char} (h : s.all isBlank = true) :
    s.head?.any StartTag.isNameChar = false := by
  cases s with
  | nil => rfl
  | cons c s =>
      rw [List.all_cons, Bool.and_eq_true] at h
      simp [StartTag.isNameChar, h.1]

namespace WrittenTag.Legible

variable {t : WrittenTag} (ht : t.Legible)

include ht

/-- The name ends where the white space of an attribute or of the end stands, or at the end. -/
theorem head?_behind {p : Char → Bool} (hleads : ∀ a ∈ t.items, a.lead.head?.any p = false)
    (hblanks : t.blanks.head?.any p = false) (hslash : p '/' = false) (hbracket : p '>' = false)
    (rest : List Char) :
    ∀ c, (t.parts.attributes ++ (t.parts.tail ++ rest)).head? = some c → p c = false := by
  intro c hc
  unfold parts at hc
  cases hitems : t.items with
  | cons a items =>
      cases hlead : a.lead with
      | nil => exact absurd hlead (ht.items a (hitems ▸ List.mem_cons_self)).lead_ne
      | cons d lead =>
          have ha := hleads a (hitems ▸ List.mem_cons_self)
          rw [hitems, List.flatMap_cons, WrittenAttribute.text, hlead] at hc
          rw [hlead] at ha
          cases hc
          exact ha
  | nil =>
      rw [hitems] at hc
      cases hb : t.blanks with
      | cons d blanks =>
          rw [hb] at hc hblanks
          cases hc
          exact hblanks
      | nil =>
          rw [hb] at hc
          cases hclosed : t.closed with
          | false =>
              rw [hclosed] at hc
              cases hc
              exact hbracket
          | true =>
              rw [hclosed] at hc
              cases hc
              exact hslash

theorem exists_name : ∃ c name, t.name = c :: name ∧ isLetter c = true := by
  have hletter := ht.letter
  cases hname : t.name with
  | nil =>
      rw [hname] at hletter
      cases hletter
  | cons c name =>
      rw [hname] at hletter
      exact ⟨c, name, rfl, hletter⟩

theorem splitTail_eq (rest : List Char) :
    splitTail none (t.parts.attributes ++ (t.parts.tail ++ rest)) =
      some (t.parts.attributes, t.parts.tail) := by
  have hend : tail? (t.parts.tail ++ rest) = some t.parts.tail := tail?_closing ht.blanks t.closed rest
  have hitems : Passed none t.parts.attributes (t.parts.tail ++ rest) none := passed_items ht.items _
  rw [hitems]
  cases htail : t.parts.tail ++ rest with
  | nil => cases h : t.closed <;> simp [parts, closing, h] at htail
  | cons c s =>
      rw [htail] at hend
      rw [splitTail, endOutside?, if_neg (by simp), hend]
      simp

/-- A tag is found as it is written, whatever follows it. -/
theorem read?_eq (rest : List Char) : StartTag.read? (t.text ++ rest) = some t.parts := by
  obtain ⟨c, name, hname, hletter⟩ := ht.exists_name
  have hchars : ∀ d ∈ name, StartTag.isNameChar d = true := fun d hd =>
    List.all_eq_true.mp ht.name d (hname ▸ List.mem_cons_of_mem c hd)
  have hbehind := ht.head?_behind (p := StartTag.isNameChar)
    (fun a ha => isNameChar_head? (ht.items a ha).lead) (isNameChar_head? ht.blanks)
    (by decide) (by decide) rest
  have htext : t.text ++ rest = '<' :: c :: (name ++ (t.parts.attributes ++ (t.parts.tail ++ rest))) := by
    simp [text, StartTag.text, parts, hname]
  rw [htext, StartTag.read?, if_pos hletter, List.span_eq_takeWhile_dropWhile,
    Text.takeWhile_append_of_head hbehind, Text.dropWhile_append_of_head hbehind,
    List.takeWhile_eq_self_iff.mpr hchars, List.dropWhile_eq_nil_iff.mpr hchars]
  dsimp only
  rw [List.nil_append, ht.splitTail_eq]
  simp [parts, hname]

end WrittenTag.Legible

end Found

section Removed

open StartTag (attribute? value? withoutFrom without)

/-- What may follow an attribute: nothing, or white space that no equals sign follows. -/
def Follows (z : List Char) : Prop := z.head?.all isBlank = true ∧ (z.dropWhile isBlank).head? ≠ some '='

theorem value?_shown {v : WrittenValue} (hv : v.Plain) {z : List Char} (hz : Follows z) :
    value? (v.shown ++ z) = some z := by
  unfold WrittenValue.shown
  cases hquote : v.quote with
  | some q =>
      obtain ⟨hq, hcontent⟩ := hv.quoted q hquote
      have hcut : Text.cutAt [q] (v.content ++ q :: z) = some (v.content, z) :=
        Text.cutAt_singleton_iff.mpr ⟨rfl, hcontent⟩
      have htext : (q :: (v.content ++ [q])) ++ z = q :: (v.content ++ q :: z) := by simp
      obtain rfl | rfl := hq <;> simp [htext, value?, hcut]
  | none =>
      obtain ⟨hne, hall, -, -⟩ := hv.bare hquote
      have hchar : ∀ c ∈ v.content, isBlank c = false ∧ c ≠ '>' ∧ c ≠ '"' ∧ c ≠ '\'' := by
        intro c hc
        have := List.all_eq_true.mp hall c hc
        simp [isBareChar] at this
        tauto
      have hrun : ∀ c ∈ v.content, (!(isBlank c || c == '>')) = true := by
        intro c hc
        obtain ⟨hblank, hbracket, -⟩ := hchar c hc
        simp [hblank, hbracket]
      have hstop : ∀ c, z.head? = some c → (!(isBlank c || c == '>')) = false := by
        intro c hc
        have hblank := hz.1
        rw [hc] at hblank
        have hblank : isBlank c = true := hblank
        simp [hblank]
      have hrest : (v.content ++ z).dropWhile (fun c => !(isBlank c || c == '>')) = z := by
        rw [Text.dropWhile_append_of_head hstop, List.dropWhile_eq_nil_iff.mpr hrun]
        rfl
      cases hcontent : v.content with
      | nil => exact absurd hcontent hne
      | cons c content =>
          obtain ⟨hblank, hbracket, hdouble, hsingle⟩ := hchar c (hcontent ▸ List.mem_cons_self)
          rw [hcontent, List.cons_append] at hrest
          simpa [value?, hdouble, hsingle, hblank, hbracket] using hrest

theorem attribute?_text {a : WrittenAttribute} (ha : a.Plain) {z : List Char} (hz : Follows z) :
    attribute? (a.text ++ z) = some (a.name, z) := by
  have hlead := List.all_eq_true.mp ha.lead
  have hname := List.all_eq_true.mp ha.name
  have hempty : a.name.isEmpty = false := by simpa using ha.name_ne
  have hfirst (u : List Char) : (a.lead ++ (a.name ++ u)).dropWhile isBlank = a.name ++ u := by
    obtain ⟨c, v, hc, hblank, -⟩ := ha.goesOn_name u
    rw [List.dropWhile_append_of_pos hlead, hc, List.dropWhile_cons_of_neg (by simp [hblank])]
  have hspan (u : List Char) (hu : ∀ c, u.head? = some c → StartTag.isAttributeChar c = false) :
      (a.name ++ u).span StartTag.isAttributeChar = (a.name, u) := by
    rw [List.span_eq_takeWhile_dropWhile, Text.takeWhile_append_of_head hu,
      Text.dropWhile_append_of_head hu, List.takeWhile_eq_self_iff.mpr hname,
      List.dropWhile_eq_nil_iff.mpr hname]
    rfl
  have hblank {c : Char} (hc : isBlank c = true) : StartTag.isAttributeChar c = false := by
    simp [StartTag.isAttributeChar, hc]
  unfold attribute?
  cases hvalue : a.value with
  | none =>
      have htext : a.text ++ z = a.lead ++ (a.name ++ z) := by simp [WrittenAttribute.text, hvalue]
      have hstop : ∀ c, z.head? = some c → StartTag.isAttributeChar c = false := by
        intro c hc
        have hall := hz.1
        rw [hc] at hall
        exact hblank hall
      rw [htext, hfirst, hspan z hstop]
      dsimp only
      rw [hempty]
      have hsign := hz.2
      split
      next h => cases h
      next => split <;> simp_all
  | some v =>
      have hv := ha.value v hvalue
      have htext : a.text ++ z = a.lead ++ (a.name ++ (v.text ++ z)) := by
        simp [WrittenAttribute.text, hvalue]
      have hstop : ∀ c, (v.text ++ z).head? = some c → StartTag.isAttributeChar c = false := by
        intro c hc
        unfold WrittenValue.text at hc
        cases hbefore : v.before with
        | nil =>
            rw [hbefore] at hc
            cases hc
            decide
        | cons d before =>
            have hall := hv.before
            rw [hbefore, List.all_cons, Bool.and_eq_true] at hall
            rw [hbefore] at hc
            cases hc
            exact hblank hall.1
      have hsign : (v.text ++ z).dropWhile isBlank = '=' :: (v.behind ++ (v.shown ++ z)) := by
        have hassoc : v.text ++ z = v.before ++ '=' :: (v.behind ++ (v.shown ++ z)) := by
          simp [WrittenValue.text]
        rw [hassoc, List.dropWhile_append_of_pos (List.all_eq_true.mp hv.before),
          List.dropWhile_cons_of_neg (by decide)]
      have hshown : (v.behind ++ (v.shown ++ z)).dropWhile isBlank = v.shown ++ z := by
        obtain ⟨c, u, hc, hnot, -⟩ := hv.goesOn_shown z
        rw [List.dropWhile_append_of_pos (List.all_eq_true.mp hv.behind), hc,
          List.dropWhile_cons_of_neg (by simp [hnot])]
      rw [htext, hfirst, hspan _ hstop]
      dsimp only
      rw [hempty, hsign]
      simp only [Bool.false_eq_true, if_false, hshown, value?_shown hv hz, Option.getD_some]

theorem follows_items {items : List WrittenAttribute} (h : ∀ a ∈ items, a.Plain) :
    Follows (items.flatMap WrittenAttribute.text) := by
  cases items with
  | nil => exact ⟨rfl, by simp⟩
  | cons a items =>
      have ha := h a List.mem_cons_self
      rw [List.flatMap_cons, WrittenAttribute.text, List.append_assoc]
      constructor
      · cases hlead : a.lead with
        | nil => exact absurd hlead ha.lead_ne
        | cons c lead =>
            have hall := ha.lead
            rw [hlead, List.all_cons, Bool.and_eq_true] at hall
            exact hall.1
      · rw [List.dropWhile_append_of_pos (List.all_eq_true.mp ha.lead)]
        cases hname : a.name with
        | nil => exact absurd hname ha.name_ne
        | cons c name =>
            have hc := List.all_eq_true.mp ha.name c (hname ▸ List.mem_cons_self)
            have hblank : isBlank c = false := by
              simp [StartTag.isAttributeChar] at hc
              exact hc.1.1.1.1.1
            rw [List.cons_append, List.cons_append, List.dropWhile_cons_of_neg (by simp [hblank])]
            exact fun hsign => (isBareChar_of_isAttributeChar hc).2.2 (Option.some.inj hsign)

/-- Attributes are taken out of the text one by one. -/
theorem without_items (attr : List Char) {items : List WrittenAttribute} (h : ∀ a ∈ items, a.Plain) :
    without attr (items.flatMap WrittenAttribute.text) =
      (items.filter fun a => !a.hasName attr).flatMap WrittenAttribute.text := by
  suffices hfuel : ∀ fuel, (items.flatMap WrittenAttribute.text).length ≤ fuel →
      withoutFrom (Text.lower attr) fuel (items.flatMap WrittenAttribute.text) =
        (items.filter fun a => !a.hasName attr).flatMap WrittenAttribute.text from
    hfuel _ (Nat.le_refl _)
  induction items with
  | nil => exact fun fuel _ => StartTag.withoutFrom_nil _ fuel
  | cons a items ih =>
      intro fuel hfuel
      have ha := h a List.mem_cons_self
      have hrest : ∀ b ∈ items, b.Plain := fun b hb => h b (List.mem_cons_of_mem a hb)
      have hread := attribute?_text ha (follows_items hrest)
      rw [List.flatMap_cons] at hfuel ⊢
      have hne : a.text ≠ [] := by
        simp [WrittenAttribute.text, ha.lead_ne]
      have hpos := List.length_pos_iff.mpr hne
      rw [List.length_append] at hfuel
      obtain ⟨fuel, rfl⟩ : ∃ n, fuel = n + 1 := ⟨fuel - 1, by omega⟩
      have hmore := ih hrest fuel (by omega)
      cases htext : a.text ++ items.flatMap WrittenAttribute.text with
      | nil => exact absurd (List.append_eq_nil_iff.mp htext).1 hne
      | cons c s =>
          rw [StartTag.withoutFrom_cons, ← htext, hread]
          dsimp only
          rw [hmore, List.length_append, Nat.add_sub_cancel, List.take_left]
          by_cases hname : a.hasName attr = true
          · rw [List.filter_cons_of_neg (by simp [hname])]
            rw [WrittenAttribute.hasName] at hname
            rw [if_pos hname, List.nil_append]
          · rw [List.filter_cons_of_pos (by simp [hname]), List.flatMap_cons]
            rw [WrittenAttribute.hasName] at hname
            rw [if_neg hname]

end Removed

section Rewritten

variable {attr : List Char} (hattr : isAttrName attr = true)

include hattr

theorem WrittenAttribute.plain_ofId (id : List Char) : (WrittenAttribute.ofId attr id).Plain where
  lead_ne := List.cons_ne_nil _ _
  lead := (by decide : List.all [' '] isBlank = true)
  name_ne := by
    rintro rfl
    cases hattr
  name := by
    obtain ⟨-, hall⟩ := Bool.and_eq_true_iff.mp hattr
    refine List.all_eq_true.mpr fun c hc => ?_
    have := List.all_eq_true.mp hall c hc
    simp [isAttrChar] at this
    simp [StartTag.isAttributeChar]
    tauto
  value v hv := by
    cases hv
    exact ⟨rfl, rfl, fun q hq => by cases hq; exact ⟨.inl rfl, Markup.quote_not_mem_escape id⟩,
      fun hnone => by cases hnone⟩

/-- A plain tag stays plain. -/
theorem WrittenTag.Plain.withId {t : WrittenTag} (ht : t.Plain) (overwrite : Bool) (id : List Char) :
    (t.withId overwrite attr id).Plain := by
  have hkept : ∀ a ∈ if overwrite then t.items.filter fun a => !a.hasName attr else t.items, a ∈ t.items := by
    intro a ha
    split at ha
    · exact (List.mem_filter.mp ha).1
    · exact ha
  have hmem : ∀ a ∈ (t.withId overwrite attr id).items, a ∈ t.items ∨ a = .ofId attr id := by
    intro a ha
    obtain ha | ha := List.mem_append.mp ha
    · exact .inl (hkept a ha)
    · exact .inr (List.mem_singleton.mp ha)
  refine ⟨ht.letter, ht.name, ?_, ht.blanks, ?_, ht.gap, ?_⟩
  · intro a ha
    obtain ha | rfl := hmem a ha
    · exact ht.items a ha
    · exact WrittenAttribute.plain_ofId hattr id
  · intro a ha
    obtain ha | rfl := hmem a ha
    · exact ht.gaps a ha
    · exact (by decide : [' '].head?.any isNameChar = false)
  · intro _ _ a ha
    rw [WrittenTag.withId, List.getLast?_append] at ha
    cases ha
    rfl

omit hattr in
theorem WrittenAttribute.text_ofId (attr id : List Char) :
    (WrittenAttribute.ofId attr id).text = Markup.written attr (Markup.escape id) := by
  simp [WrittenAttribute.ofId, WrittenAttribute.text, WrittenValue.text, WrittenValue.shown, Markup.written]

omit hattr in
/-- Writing an id into the text of a tag is writing it into the tag. -/
theorem WrittenTag.Legible.parts_withId {t : WrittenTag} (ht : t.Legible) (overwrite : Bool)
    (attr id : List Char) : t.parts.withId overwrite attr id = (t.withId overwrite attr id).parts := by
  have hkept : (if overwrite then StartTag.without attr t.parts.attributes else t.parts.attributes) =
      (if overwrite then t.items.filter fun a => !a.hasName attr else t.items).flatMap
        WrittenAttribute.text := by
    cases overwrite with
    | true => exact without_items attr ht.items
    | false => rfl
  unfold StartTag.withId
  rw [hkept]
  simp [parts, WrittenTag.withId, WrittenAttribute.text_ofId]

omit hattr in
/-- An id that is written once more takes the place of itself. -/
theorem WrittenTag.withId_withId (t : WrittenTag) (overwrite : Bool) (attr id : List Char) :
    (t.withId overwrite attr id).withId true attr id = t.withId true attr id := by
  have hself : (WrittenAttribute.ofId attr id).hasName attr = true := beq_self_eq_true _
  unfold WrittenTag.withId
  cases overwrite <;> simp [hself]

end Rewritten

end MarkupIds.Html
