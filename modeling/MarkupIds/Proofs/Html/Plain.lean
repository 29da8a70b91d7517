import MarkupIds.Proofs.Html.Attributes
import MarkupIds.Proofs.Html.Reference
import MarkupIds.Proofs.Html.Tree
import MarkupIds.Proofs.Html.Written

/-! Plain start tags as they are read: one attribute for each one written, whatever follows the tag. An
id that is written into such a tag is read as its own attribute and changes no other. -/

namespace MarkupIds.Html

open MarkupIds.Text (isBlank isLetter)

theorem skipGap_closing (closed : Bool) (t : List Char) :
    skipGap (closing closed ++ t) = closing closed ++ t := by
  cases closed with
  | false => exact skipGap_cons_of_not fun h => absurd h.1 (by decide)
  | true => exact skipGap_cons_of_not fun h => h.2 rfl rfl

theorem attributesFrom_closing (fuel : Nat) (before : Char) (closed : Bool) (t : List Char) :
    attributesFrom fuel before (closing closed ++ t) = ([], closing closed ++ t) := by
  cases fuel with
  | zero => rw [attributesFrom]
  | succ fuel =>
      have hnot (c : Char) (h : (isBlank c || c == '/' || c == '>') = true) (u : List Char) :
          attributesFrom (fuel + 1) before (c :: u) = ([], c :: u) := by
        rw [attributesFrom, if_neg]
        rw [h]
        simp
      cases closed with
      | false => exact hnot '>' (by decide) t
      | true => exact hnot '/' (by decide) ('>' :: t)

theorem ends_tail {blanks : List Char} (h : blanks.all isBlank = true) (closed : Bool) (t : List Char) :
    Ends (blanks ++ closing closed ++ t) [] (closing closed ++ t) where
  head := by
    cases blanks with
    | nil =>
        cases closed with
        | false => exact ⟨'>', t, rfl, .inr (.inl rfl)⟩
        | true => exact ⟨'/', '>' :: t, rfl, .inr (.inr rfl)⟩
    | cons c blanks =>
        obtain ⟨hc, -⟩ := Bool.and_eq_true_iff.mp (List.all_cons ▸ h)
        exact ⟨c, blanks ++ closing closed ++ t, rfl, .inl hc⟩
  next := by
    rw [List.append_assoc, List.dropWhile_append_of_pos (List.all_eq_true.mp h)]
    cases closed with
    | false =>
        have hself : (closing false ++ t).dropWhile isBlank = '>' :: t :=
          List.dropWhile_cons_of_neg (by decide)
        rw [hself]
        simp
    | true =>
        have hself : (closing true ++ t).dropWhile isBlank = '/' :: '>' :: t :=
          List.dropWhile_cons_of_neg (by decide)
        rw [hself]
        simp
  read fuel before _ _ := by
    rw [List.append_assoc, skipGap_blanks h, skipGap_closing]
    exact attributesFrom_closing fuel before closed t

namespace WrittenAttribute

/-- What the attribute's value is made of. -/
def content (a : WrittenAttribute) : List Char := (a.value.map (·.content)).getD []

def raw (a : WrittenAttribute) : String × List Char := (String.ofList (Text.lower a.name), a.content)

def pair (a : WrittenAttribute) : String × String :=
  (String.ofList (Text.lower a.name), String.ofList (expand a.content))

end WrittenAttribute

section Item

variable {z rest : List Char} {last : List (String × List Char)} (hz : Ends z last rest)

include hz

theorem Ends.head_eq_false {p : Char → Bool} (hp : ∀ c, isBlank c = true ∨ c = '>' ∨ c = '/' → p c = false) :
    ∀ c, z.head? = some c → p c = false := by
  obtain ⟨d, u, rfl, hd⟩ := hz.head
  intro c hc
  cases hc
  exact hp d hd

/-- A value is read as it is written; one without quotes must not run into a slash. -/
theorem attributeValue?_text {v : WrittenValue} (hv : v.Plain)
    (hbare : v.quote = none → z.head? ≠ some '/') :
    attributeValue? (v.text ++ z) = some (v.content, z) := by
  have hshown : ∃ c u, v.shown ++ z = c :: u ∧ isBlank c = false ∧ c ≠ '=' := by
    unfold WrittenValue.shown
    cases hquote : v.quote with
    | some q =>
        obtain ⟨hq, -⟩ := hv.quoted q hquote
        have hmark : isBlank q = false ∧ q ≠ '=' := by obtain rfl | rfl := hq <;> decide
        exact ⟨q, _, rfl, hmark⟩
    | none =>
        obtain ⟨hne, hall, hsign, -⟩ := hv.bare hquote
        cases hcontent : v.content with
        | nil => exact absurd hcontent hne
        | cons c content =>
            rw [hcontent, List.all_cons, Bool.and_eq_true] at hall
            have hc := hall.1
            simp [isBareChar] at hc
            refine ⟨c, content ++ z, rfl, hc.1.1.1, ?_⟩
            rintro rfl
            exact hsign (by rw [hcontent]; rfl)
  obtain ⟨c, u, hc, hblank, hsign⟩ := hshown
  have htext : v.text ++ z = v.before ++ '=' :: (v.behind ++ (v.shown ++ z)) := by
    simp [WrittenValue.text]
  have hbehind : ∀ d, (v.behind ++ c :: u).head? = some d → (d == '=') = false := by
    intro d hd
    cases hlist : v.behind with
    | nil =>
        rw [hlist] at hd
        cases hd
        simpa using hsign
    | cons e behind =>
        rw [hlist] at hd
        cases hd
        have hall := hv.behind
        rw [hlist, List.all_cons, Bool.and_eq_true] at hall
        rw [beq_eq_false_iff_ne]
        rintro rfl
        exact absurd hall.1 (by decide)
  have hsigns : ('=' :: (v.behind ++ c :: u)).takeWhile (· == '=') = ['='] ∧
      ('=' :: (v.behind ++ c :: u)).dropWhile (· == '=') = v.behind ++ c :: u := by
    have htake := Text.takeWhile_append_of_head (s := ['=']) hbehind
    have hdrop := Text.dropWhile_append_of_head (s := ['=']) hbehind
    exact ⟨htake, hdrop⟩
  have hblanks : (v.behind ++ c :: u).takeWhile isBlank = v.behind ∧
      (v.behind ++ c :: u).dropWhile isBlank = c :: u := by
    have hstop : ∀ d, (c :: u).head? = some d → isBlank d = false := fun d hd => by cases hd; exact hblank
    rw [Text.takeWhile_append_of_head hstop, Text.dropWhile_append_of_head hstop,
      List.takeWhile_eq_self_iff.mpr (List.all_eq_true.mp hv.behind),
      List.dropWhile_eq_nil_iff.mpr (List.all_eq_true.mp hv.behind)]
    exact ⟨rfl, rfl⟩
  unfold attributeValue?
  rw [htext, hc, List.dropWhile_append_of_pos (List.all_eq_true.mp hv.before),
    List.dropWhile_cons_of_neg (by decide)]
  simp only [List.span_eq_takeWhile_dropWhile]
  rw [hsigns.1, hsigns.2, hblanks.1, hblanks.2, ← hc]
  unfold WrittenValue.shown
  cases hquote : v.quote with
  | some q =>
      obtain ⟨hq, hcontent⟩ := hv.quoted q hquote
      have hcut : Text.cutAt [q] (v.content ++ q :: z) = some (v.content, z) :=
        Text.cutAt_singleton_iff.mpr ⟨rfl, hcontent⟩
      have hassoc : (q :: (v.content ++ [q])) ++ z = q :: (v.content ++ q :: z) := by simp
      obtain rfl | rfl := hq <;> simp [hassoc, valueAfter, hcut]
  | none =>
      obtain ⟨-, hall, -, -⟩ := hv.bare hquote
      have hrun : ∀ d ∈ v.content, (!(isBlank d || d == '>')) = true := by
        intro d hd
        have hbare := List.all_eq_true.mp hall d hd
        simp [isBareChar] at hbare
        simp [hbare.1.1.1, hbare.1.1.2]
      have hstop : ∀ d, z.head? = some d → (!(isBlank d || d == '>')) = false := by
        intro d hd
        obtain ⟨e, w, rfl, he⟩ := hz.head
        cases hd
        obtain he | rfl | rfl := he
        · simp [he]
        · decide
        · exact absurd rfl (hbare hquote)
      have hvalue : bareValue (v.content ++ z) = (v.content, z) := by
        rw [bareValue, List.span_eq_takeWhile_dropWhile, Text.takeWhile_append_of_head hstop,
          Text.dropWhile_append_of_head hstop, List.takeWhile_eq_self_iff.mpr hrun,
          List.dropWhile_eq_nil_iff.mpr hrun]
        rfl
      cases hcontent : v.content with
      | nil => exact absurd hcontent (hv.bare hquote).1
      | cons d content =>
          have hd := List.all_eq_true.mp hall d (hcontent ▸ List.mem_cons_self)
          simp [isBareChar] at hd
          rw [hcontent] at hvalue
          unfold valueAfter
          split
          next heq => exact absurd (List.cons.inj heq).1 hd.1.2
          next heq => exact absurd (List.cons.inj heq).1 hd.2
          next => exact congrArg some hvalue

/-- A plain attribute is read, and then what follows it. -/
theorem ends_attribute {a : WrittenAttribute} (ha : a.Plain)
    (hbare : a.isBare = true → z.head? ≠ some '/') : Ends (a.text ++ z) (a.raw :: last) rest := by
  obtain ⟨hlead_ne, hlead, hname_ne, hname, hvalue⟩ := ha
  cases hnames : a.name with
  | nil => exact absurd hnames hname_ne
  | cons c name =>
  have hchars : ∀ d ∈ c :: name, isBlank d = false ∧ d ≠ '/' ∧ d ≠ '=' ∧ d ≠ '>' := by
    intro d hd
    have hd := List.all_eq_true.mp hname d (hnames ▸ hd)
    simp [StartTag.isAttributeChar] at hd
    tauto
  obtain ⟨hblank, hslash, hsign, hbracket⟩ := hchars c List.mem_cons_self
  have hrun : ∀ d ∈ name, isAttributeNameChar d = true := by
    intro d hd
    obtain ⟨h₁, h₂, h₃, h₄⟩ := hchars d (List.mem_cons_of_mem c hd)
    simp [isAttributeNameChar, h₁, h₂, h₃, h₄]
  have hattribute : attributeAt c (name ++ ((a.value.map WrittenValue.text).getD [] ++ z)) = (a.raw, z) := by
    unfold attributeAt WrittenAttribute.raw WrittenAttribute.content
    cases hv : a.value with
    | none =>
        have hstop := hz.head_eq_false (p := isAttributeNameChar) (by
          rintro d (hd | rfl | rfl)
          · simp [isAttributeNameChar, hd]
          · decide
          · decide)
        have hnone : attributeValue? z = none := by
          unfold attributeValue?
          split
          next r hr => exact absurd (congrArg List.head? hr) hz.next
          next => rfl
        simp only [Option.map_none, Option.getD_none, List.nil_append, List.span_eq_takeWhile_dropWhile,
          Text.takeWhile_append_of_head hstop, Text.dropWhile_append_of_head hstop,
          List.takeWhile_eq_self_iff.mpr hrun, List.dropWhile_eq_nil_iff.mpr hrun, hnone, hnames]
    | some v =>
        have hstop : ∀ d, (v.text ++ z).head? = some d → isAttributeNameChar d = false := by
          intro d hd
          unfold WrittenValue.text at hd
          cases hbefore : v.before with
          | nil =>
              rw [hbefore] at hd
              cases hd
              decide
          | cons e before =>
              have hall := (hvalue v hv).before
              rw [hbefore, List.all_cons, Bool.and_eq_true] at hall
              rw [hbefore] at hd
              cases hd
              simp [isAttributeNameChar, hall.1]
        have hread := attributeValue?_text hz (hvalue v hv) fun hnone =>
          hbare (by simp [WrittenAttribute.isBare, hv, hnone])
        simp only [Option.map_some, Option.getD_some, List.span_eq_takeWhile_dropWhile,
          Text.takeWhile_append_of_head hstop, Text.dropWhile_append_of_head hstop,
          List.takeWhile_eq_self_iff.mpr hrun, List.dropWhile_eq_nil_iff.mpr hrun, List.nil_append,
          hread, hnames]
  have htext : a.text ++ z = a.lead ++ (c :: (name ++ ((a.value.map WrittenValue.text).getD [] ++ z))) := by
    simp [WrittenAttribute.text, hnames]
  have hhead : ∃ d u, a.text ++ z = d :: u ∧ isBlank d = true := by
    cases hleads : a.lead with
    | nil => exact absurd hleads hlead_ne
    | cons d lead =>
        rw [hleads, List.all_cons, Bool.and_eq_true] at hlead
        exact ⟨d, _, by rw [htext, hleads]; rfl, hlead.1⟩
  obtain ⟨d, u, hd, hdblank⟩ := hhead
  refine ⟨⟨d, u, hd, .inl hdblank⟩, ?_, ?_⟩
  · rw [htext, List.dropWhile_append_of_pos (List.all_eq_true.mp hlead),
      List.dropWhile_cons_of_neg (by simp [hblank])]
    exact fun h => hsign (Option.some.inj h)
  · intro fuel before hfuel hbefore
    cases fuel with
    | zero => exact absurd hfuel (Nat.not_succ_le_zero _)
    | succ fuel =>
        have hbefore' : mayPrecedeName before = true := hbefore (by rw [hd]; exact hdblank)
        have hstart : (mayPrecedeName before && !(isBlank c || c == '/' || c == '>')) = true := by
          simp [hbefore', hblank, hslash, hbracket]
        have hmore := hz.read fuel
        rw [htext, skipGap_blanks hlead,
          skipGap_cons_of_not fun h => h.1.elim (by simp [hblank]) hslash, attributesFrom, if_pos hstart,
          hattribute]
        dsimp only
        rw [hmore _ (Nat.le_of_succ_le_succ hfuel)]
        intro hz'
        have hsuffix : c :: (name ++ ((a.value.map WrittenValue.text).getD [] ++ z)) =
            (c :: (name ++ (a.value.map WrittenValue.text).getD [])) ++ z := by simp
        rw [hsuffix]
        exact mayPrecedeName_lastBefore _ before hz'

end Item

theorem ends_items {items : List WrittenAttribute} (h : ∀ a ∈ items, a.Plain) {z rest : List Char}
    {last : List (String × List Char)} (hz : Ends z last rest)
    (hbare : ∀ a, items.getLast? = some a → a.isBare = true → z.head? ≠ some '/') :
    Ends (items.flatMap WrittenAttribute.text ++ z) (items.map WrittenAttribute.raw ++ last) rest := by
  induction items with
  | nil => exact hz
  | cons a items ih =>
      have hmore := ih (fun b hb => h b (List.mem_cons_of_mem a hb)) fun b hb => by
        cases items with
        | nil => cases hb
        | cons c items => exact hbare b (by rw [List.getLast?_cons_cons, hb])
      rw [List.flatMap_cons, List.append_assoc, List.map_cons, List.cons_append]
      refine ends_attribute hmore (h a List.mem_cons_self) fun hbareHere => ?_
      cases items with
      | nil => exact hbare a rfl hbareHere
      | cons b items =>
          have hb := h b (List.mem_cons_of_mem a List.mem_cons_self)
          cases hlead : b.lead with
          | nil => exact absurd hlead hb.lead_ne
          | cons c lead =>
              have hall := hb.lead
              rw [hlead, List.all_cons, Bool.and_eq_true] at hall
              rw [List.flatMap_cons, WrittenAttribute.text, hlead]
              intro hslash
              obtain rfl : c = '/' := Option.some.inj hslash
              exact absurd hall.1 (by decide)

namespace WrittenTag

def pairs (t : WrittenTag) : List (String × String) := t.items.map WrittenAttribute.pair

def token (t : WrittenTag) : Token := .opening (String.ofList (Text.lower t.name)) t.pairs t.closed

theorem length_items_le (t : WrittenTag) (ht : t.Plain) : t.items.length ≤ t.parts.attributes.length := by
  have hitems := ht.items
  unfold parts
  dsimp only
  generalize t.items = items at hitems ⊢
  induction items with
  | nil => exact Nat.le_refl _
  | cons a items ih =>
      have ha := List.length_pos_iff.mpr (hitems a List.mem_cons_self).lead_ne
      have hmore := ih fun b hb => hitems b (List.mem_cons_of_mem a hb)
      rw [List.flatMap_cons, List.length_append, WrittenAttribute.text, List.length_append, List.length_cons]
      omega

/-- Every number in a value can be read. -/
def Readable (t : WrittenTag) : Prop := ∀ a ∈ t.items, overlong? a.content = none

/-- A plain tag is found attribute by attribute, whatever follows it. -/
theorem Plain.readOpening_expanded {t : WrittenTag} (ht : t.Plain) (rest : List Char) :
    readOpening (t.text ++ rest) = expanded (t.items.map WrittenAttribute.raw)
      (fun attributes => [.opening (String.ofList (Text.lower t.name)) attributes t.closed]) t.text.length := by
  have htail : t.parts.tail ++ rest = t.blanks ++ closing t.closed ++ rest := rfl
  have hends : Ends (t.parts.attributes ++ (t.parts.tail ++ rest)) (t.items.map WrittenAttribute.raw)
      (closing t.closed ++ rest) := by
    rw [← List.append_nil (t.items.map _)]
    refine ends_items ht.items (ends_tail ht.blanks t.closed rest) ?_
    intro a ha hbare hslash
    rw [htail] at hslash
    cases hblanks : t.blanks with
    | cons c blanks =>
        have hall := ht.blanks
        rw [hblanks, List.all_cons, Bool.and_eq_true] at hall
        rw [hblanks] at hslash
        obtain rfl : c = '/' := Option.some.inj hslash
        exact absurd hall.1 (by decide)
    | nil =>
        cases hclosed : t.closed with
        | true =>
            rw [ht.last hclosed hblanks a ha] at hbare
            cases hbare
        | false =>
            rw [hblanks, hclosed] at hslash
            exact absurd (Option.some.inj hslash) (by decide)
  have hname : ∀ c ∈ t.name, isNameChar c = true := fun c hc =>
    (Bool.and_eq_true_iff.mp (List.all_eq_true.mp ht.name c hc)).2
  have hbehind := ht.legible.head?_behind (p := isNameChar) ht.gaps ht.gap (by decide) (by decide) rest
  have htext : t.text ++ rest = '<' :: (t.name ++ (t.parts.attributes ++ (t.parts.tail ++ rest))) := by
    simp [text, StartTag.text, parts]
  have hlength : (t.items.map WrittenAttribute.raw).length ≤ (t.text ++ rest).length := by
    have hitems := t.length_items_le ht
    rw [htext, List.length_map]
    simp only [List.length_cons, List.length_append]
    omega
  have hbefore := hends.read (t.text ++ rest).length
    (lastBefore (t.text ++ rest) (skipGap (t.parts.attributes ++ (t.parts.tail ++ rest))) '<') hlength
    fun hblank => by
      have hsplit : t.text ++ rest = ('<' :: t.name) ++ (t.parts.attributes ++ (t.parts.tail ++ rest)) := by
        rw [htext]
        rfl
      rw [hsplit]
      exact mayPrecedeName_lastBefore ('<' :: t.name) '<' hblank
  have hspan : ((t.text ++ rest).drop 1).span isNameChar =
      (t.name, t.parts.attributes ++ (t.parts.tail ++ rest)) := by
    rw [htext, List.drop_succ_cons, List.drop_zero, List.span_eq_takeWhile_dropWhile,
      Text.takeWhile_append_of_head hbehind, Text.dropWhile_append_of_head hbehind,
      List.takeWhile_eq_self_iff.mpr hname, List.dropWhile_eq_nil_iff.mpr hname]
    rfl
  have hcount : t.text.length = (t.name.length + t.parts.attributes.length + t.blanks.length + 1) +
      (closing t.closed).length := by
    simp only [text, StartTag.text, parts, List.length_cons, List.length_append]
    omega
  unfold readOpening
  simp only [hspan, hbefore]
  have hall : (t.text ++ rest).length = t.text.length + rest.length := List.length_append
  cases hclosed : t.closed with
  | false =>
      rw [hclosed] at hcount
      simp only [closing, Bool.false_eq_true, if_false, List.singleton_append, List.length_cons,
        hall, List.length_nil] at hcount ⊢
      congr 1
      omega
  | true =>
      rw [hclosed] at hcount
      simp only [closing, if_true, List.cons_append, List.nil_append, List.length_cons, hall,
        List.length_nil] at hcount ⊢
      congr 1
      omega

theorem findSome?_raw_eq_none {t : WrittenTag} :
    ((t.items.map WrittenAttribute.raw).findSome? fun a => overlong? a.2) = none ↔ t.Readable := by
  rw [List.findSome?_eq_none_iff, List.forall_mem_map]
  rfl

/-- A plain tag in which every number can be read is read, whatever follows it. -/
theorem Plain.readOpening_eq {t : WrittenTag} (ht : t.Plain) (hreadable : t.Readable) (rest : List Char) :
    readOpening (t.text ++ rest) = .read [t.token] t.text.length := by
  rw [ht.readOpening_expanded, expanded, findSome?_raw_eq_none.mpr hreadable, List.map_map]
  rfl

theorem Plain.readable_of_readOpening {t : WrittenTag} (ht : t.Plain) {rest : List Char} {tokens : List Token}
    {count : Nat} (h : readOpening (t.text ++ rest) = .read tokens count) : t.Readable := by
  rw [ht.readOpening_expanded, expanded] at h
  cases hlong : (t.items.map WrittenAttribute.raw).findSome? fun a => overlong? a.2 with
  | none => exact findSome?_raw_eq_none.mp hlong
  | some digits =>
      rw [hlong] at h
      cases h

theorem Readable.withId {t : WrittenTag} (h : t.Readable) (overwrite : Bool) (attr id : List Char) :
    (t.withId overwrite attr id).Readable := by
  intro a ha
  obtain ha | ha := List.mem_append.mp ha
  · split at ha
    · exact h a (List.mem_filter.mp ha).1
    · exact h a ha
  · obtain rfl := List.mem_singleton.mp ha
    exact overlong?_escape id

theorem pair_ofId (attr id : List Char) :
    (WrittenAttribute.ofId attr id).pair = (String.ofList (Text.lower attr), String.ofList id) := by
  simp [WrittenAttribute.ofId, WrittenAttribute.pair, WrittenAttribute.content, expand_escape]

theorem filter_pairs (attr : List Char) (items : List WrittenAttribute) :
    (items.map WrittenAttribute.pair).filter (·.1 != String.ofList (Text.lower attr)) =
      (items.filter fun a => !a.hasName attr).map WrittenAttribute.pair := by
  have hname (a : WrittenAttribute) :
      (a.pair.1 != String.ofList (Text.lower attr)) = !a.hasName attr := by
    have hinj : Function.Injective String.ofList := fun s t h => by
      simpa using congrArg String.toList h
    unfold WrittenAttribute.pair WrittenAttribute.hasName
    rw [bne, Bool.eq_iff_iff]
    simp only [Bool.not_eq_true', beq_eq_false_iff_ne, ne_eq, hinj.eq_iff]
  induction items with
  | nil => rfl
  | cons a items ih =>
      rw [List.map_cons]
      by_cases ha : a.hasName attr = true
      · rw [List.filter_cons_of_neg (by rw [hname, ha]; decide), List.filter_cons_of_neg (by simp [ha]), ih]
      · rw [List.filter_cons_of_pos (by rw [hname]; simp [ha]), List.filter_cons_of_pos (by simp [ha]), ih,
          List.map_cons]

/-- An id makes no difference to the other attributes. -/
theorem sameBut_withId (t : WrittenTag) (overwrite : Bool) (attr id : List Char) :
    SameBut (String.ofList (Text.lower attr)) t.token (t.withId overwrite attr id).token := by
  refine .opening _ _ ?_
  have hid : ([.ofId attr id] : List WrittenAttribute).filter (fun a => !a.hasName attr) = [] := by
    simp [WrittenAttribute.hasName, WrittenAttribute.ofId]
  unfold others pairs
  rw [filter_pairs, filter_pairs, withId]
  dsimp only
  rw [List.filter_append, hid, List.append_nil]
  cases overwrite with
  | true => simp
  | false => rfl

end WrittenTag

end MarkupIds.Html
