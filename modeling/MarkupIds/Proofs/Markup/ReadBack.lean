import MarkupIds.Proofs.Html.Reference
import MarkupIds.Markup.Escape
import MarkupIds.Proofs.Xml.Added
import MarkupIds.Xml.Assign

/-! Ids that are written as values and read back. What a reader makes of an escaped text is the text, in HTML always
and in XML unless the document type says that the value is a list of tokens. -/

namespace MarkupIds

open MarkupIds.Markup (escape)

namespace Xml

/-- A character that stands for itself in a value: of white space only the space does. -/
def isVerbatim (c : Char) : Bool := isXmlChar c && !(c == '\t' || c == '\r' || c == '\n')

/-- The document type says that the values of an attribute are lists of tokens. -/
def tokenizes (rules : List AttributeRule) (name : List Char) : Bool :=
  (rules.find? fun r => r.name == name).any (·.isTokens)

theorem valueChar_of_isKept {c : Char} (hc : isVerbatim c = true) : Reading.valueChar c = c := by
  unfold Reading.valueChar
  split
  next hspace =>
    simp only [isSpace, Bool.or_eq_true, beq_iff_eq] at hspace
    obtain ((rfl | rfl) | rfl) | rfl := hspace
    · rfl
    all_goals exact absurd hc (by decide)
  next => rfl

theorem map_valueChar_of_isKept {v : List Char} (hv : ∀ c ∈ v, isVerbatim c = true) : v.map Reading.valueChar = v :=
  (List.map_congr_left fun c hc => valueChar_of_isKept (hv c hc)).trans (List.map_id v)

namespace Reading

variable {s : State} {owner : Option (List Char)} {name v rest : List Char}

/-- An attribute comes next, with an escaped text in double quotes as its value. White space may stand on either side
of the equals sign. -/
def HoldsNext (s : State) (owner : Option (List Char)) (name v rest : List Char) : Prop :=
  name ≠ [] ∧ ∃ m before behind, qualifiedName s = .ok ((owner, name), m) ∧
    (∀ c ∈ before, isSpace c = true) ∧ (∀ c ∈ behind, isSpace c = true) ∧
      m.rest = before ++ '=' :: (behind ++ '"' :: (escape v ++ '"' :: rest))

theorem exists_spaces {c : Char} {run r : List Char} (hrun : ∀ c ∈ run, isSpace c = true) (hc : isSpace c = false)
    (hs : s.rest = run ++ c :: r) : ∃ b t, spaces s = .ok (b, t) ∧ t.rest = c :: r := by
  have hread : spaces s = .ok (!(s.rest.takeWhile isSpace).isEmpty, s.advance (s.rest.takeWhile isSpace).length) := rfl
  refine ⟨_, _, hread, ?_⟩
  rw [(spaces_eq_ok hread).1, hs, List.dropWhile_append_of_pos hrun,
    List.dropWhile_cons_of_neg (by rw [hc]; exact Bool.false_ne_true)]

theorem exists_checkSpace (g : Given) (s : State) : ∃ t, checkSpace g s = .ok ((), t) ∧ t.rest = s.rest := by
  unfold checkSpace
  split
  · split
    · exact ⟨_, rfl, rfl⟩
    · exact ⟨s, rfl, rfl⟩
  · exact ⟨s, rfl, rfl⟩

/-- The value of an attribute is read back, whatever has been declared, up to the collapsing of a list of tokens. -/
theorem given_escaped (rules : List AttributeRule) (h : HoldsNext s owner name v rest)
    (hv : ∀ c ∈ v, isVerbatim c = true) :
    ∃ t, given rules s =
        .ok (⟨owner, name, if tokenizes rules (fullName owner name) then tokens v else v⟩, t) ∧ t.rest = rest := by
  obtain ⟨hne, m, before, behind, hname, hbefore, hbehind, hm⟩ := h
  obtain ⟨b, m₁, hspaces, hm₁⟩ := exists_spaces hbefore (by decide) hm
  have hequals : expect ['='] (.attributeWithoutValue (String.ofList name)) m₁ = .ok ((), m₁.advance 1) := by
    refine bind_eq_ok.mpr ⟨true, _, accept_eq_ok.mpr ⟨?_, rfl⟩, rfl⟩
    rw [hm₁]
    rfl
  have hm₂ : (m₁.advance 1).rest = behind ++ '"' :: (escape v ++ '"' :: rest) := by
    rw [State.rest_advance, hm₁]
    rfl
  obtain ⟨b', m₃, hspaces', hm₃⟩ := exists_spaces hbehind (by decide) hm₂
  obtain ⟨m₄, hend, hm₄⟩ := valueEnd_escape (s := m₃.advance 1) (x := v) (r := rest)
    (fun c hc => (Bool.and_eq_true_iff.mp (hv c hc)).1) (by rw [State.rest_advance, hm₃]; rfl)
    (Nat.lt_succ_of_le (le_length_escape_append v rest))
  rw [map_valueChar_of_isKept hv] at hend
  have hvalue : value m₃ = .ok (v, m₄) := value_iff.mpr ⟨'"', _, .inl rfl, hm₃, hend⟩
  obtain ⟨t, hcheck, ht⟩ := exists_checkSpace
    ⟨owner, name, if tokenizes rules (fullName owner name) then tokens v else v⟩ m₄
  refine ⟨t, ?_, ht.trans hm₄⟩
  unfold given
  refine bind_eq_ok.mpr ⟨(owner, name), m, hname, ?_⟩
  dsimp only
  rw [if_neg (by simpa using hne)]
  refine bind_eq_ok.mpr ⟨b, m₁, hspaces, bind_eq_ok.mpr ⟨(), _, hequals, bind_eq_ok.mpr ⟨b', m₃, hspaces', ?_⟩⟩⟩
  refine bind_eq_ok.mpr ⟨v, m₄, hvalue, ?_⟩
  have hcollapsed : (if tokenizes rules (fullName owner name) then ({ owner, name, value := tokens v } : Given)
      else { owner, name, value := v }) =
        ⟨owner, name, if tokenizes rules (fullName owner name) then tokens v else v⟩ := by
    split <;> rfl
  exact bind_eq_ok.mpr ⟨(), t, hcollapsed ▸ hcheck, congrArg (fun g => Except.ok (g, t)) hcollapsed⟩

/-- So it comes next where an attribute that is put in does. -/
theorem holdsNext_written {attr : List Char} (hattr : isLocalName attr = true)
    (hs : ' ' :: s.rest = Markup.written attr (escape v) ++ rest) : HoldsNext s none attr v rest := by
  have htext : s.rest = attr ++ '=' :: ('"' :: (escape v ++ '"' :: rest)) := by
    have hcons : ' ' :: s.rest = ' ' :: (attr ++ '=' :: ('"' :: (escape v ++ '"' :: rest))) := by
      rw [hs]
      simp [Markup.written]
    exact (List.cons.inj hcons).2
  refine ⟨?_, s.advance attr.length, [], [], qualifiedName_local hattr htext, List.forall_mem_nil _,
    List.forall_mem_nil _, ?_⟩
  · rintro rfl
    cases hattr
  · rw [State.rest_advance, htext, List.drop_left]
    rfl

end Reading

end Xml

namespace Markup

open Xml (isVerbatim tokenizes tokens)
open Xml.Reading (HoldsNext fullName given)

/-- What is written for an id holds no mark of a tag, and is read back as the id: in HTML whatever the id is, in XML
where white space in it is nothing but spaces. Only a declared list of tokens has its spaces collapsed, so ids that
differ still differ when they are read back. -/
theorem escape_read_back (v : List Char) :
    (∀ c, c = '<' ∨ c = '>' ∨ c = '"' → c ∉ escape v) ∧
    Html.expand (escape v) = v ∧
    (∀ w, w ≠ v → Html.expand (escape w) ≠ Html.expand (escape v)) ∧
    ((∀ c ∈ v, isVerbatim c = true) →
      (∀ rules s owner name rest, HoldsNext s owner name v rest → ∃ t, given rules s =
        .ok (⟨owner, name, if tokenizes rules (fullName owner name) then tokens v else v⟩, t) ∧ t.rest = rest) ∧
      ∀ w, w ≠ v → (∀ c ∈ w, isVerbatim c = true) → ∀ rules s owner name rest, HoldsNext s owner name v rest →
        tokenizes rules (fullName owner name) = false → ∀ rules' s' owner' name' rest',
          HoldsNext s' owner' name' w rest' → tokenizes rules' (fullName owner' name') = false →
            ∀ g t g' t', given rules s = .ok (g, t) → given rules' s' = .ok (g', t') → g'.value ≠ g.value) := by
  refine ⟨fun c hc => not_mem_escape hc v, Html.expand_escape v, fun w hne => ?_, fun hv => ⟨?_, ?_⟩⟩
  · rwa [Html.expand_escape, Html.expand_escape]
  · exact fun rules s owner name rest h => Xml.Reading.given_escaped rules h hv
  · intro w hne hw rules s owner name rest h hplain rules' s' owner' name' rest' h' hplain' g t g' t' hg hg'
    obtain ⟨m, hread, -⟩ := Xml.Reading.given_escaped rules h hv
    obtain ⟨m', hread', -⟩ := Xml.Reading.given_escaped rules' h' hw
    rw [hplain, if_neg Bool.false_ne_true] at hread
    rw [hplain', if_neg Bool.false_ne_true] at hread'
    obtain ⟨rfl, -⟩ := Prod.mk.inj (Except.ok.inj (hg.symm.trans hread))
    obtain ⟨rfl, -⟩ := Prod.mk.inj (Except.ok.inj (hg'.symm.trans hread'))
    exact hne

/-- An id that looks like a reference, and one that is what the reference stands for. -/
theorem escape_read_back_reference :
    (∀ c ∈ ['&', 'l', 't', ';'], isVerbatim c = true) ∧ (∀ c ∈ ['<'], isVerbatim c = true) ∧
    ∃ g t g' t', given [] { rest := "id=\"&amp;lt;\"/>".toList } = .ok (g, t) ∧ g.value = ['&', 'l', 't', ';'] ∧
      given [] { rest := "id=\"&lt;\"/>".toList } = .ok (g', t') ∧ g'.value ≠ g.value := by
  have hv : ∀ c ∈ ['&', 'l', 't', ';'], isVerbatim c = true := List.all_eq_true.mp (by decide)
  have hw : ∀ c ∈ ['<'], isVerbatim c = true := List.all_eq_true.mp (by decide)
  have h : HoldsNext { rest := "id=\"&amp;lt;\"/>".toList } none ['i', 'd'] ['&', 'l', 't', ';'] ['/', '>'] :=
    Xml.Reading.holdsNext_written (by decide) (by decide)
  have h' : HoldsNext { rest := "id=\"&lt;\"/>".toList } none ['i', 'd'] ['<'] ['/', '>'] :=
    Xml.Reading.holdsNext_written (by decide) (by decide)
  obtain ⟨hread, hdiffer⟩ := (escape_read_back ['&', 'l', 't', ';']).2.2.2 hv
  obtain ⟨t, hg, -⟩ := hread [] _ _ _ _ h
  obtain ⟨t', hg', -⟩ := ((escape_read_back ['<']).2.2.2 hw).1 [] _ _ _ _ h'
  exact ⟨hv, hw, _, t, _, t', hg, rfl, hg',
    hdiffer ['<'] (by decide) hw [] _ _ _ _ h rfl [] _ _ _ _ h' rfl _ _ _ _ hg hg'⟩

/-- A document type that declares an attribute as a list of tokens takes spaces out of its value. -/
theorem read_collapses_tokens :
    (∀ c ∈ "x  a".toList, isVerbatim c = true) ∧ escape "x  a".toList = "x  a".toList ∧
    (Xml.read "<!DOCTYPE a [<!ATTLIST a i NMTOKENS #IMPLIED>]><a i=\"x  a\"/>".toList).toOption.map
      (fun c => (Numbered.list c.tree).map fun e => e.tag.attribute? "i") = some [some "x a"] := by
  exact ⟨List.all_eq_true.mp (by decide), by decide +kernel, by decide +kernel⟩

end Markup

end MarkupIds
