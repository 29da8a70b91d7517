import MarkupIds.Proofs.Xml.Mirror

/-! A start tag in a text and in its twin: where an attribute without a colon in its name is put in, in place of
those of its name, the tag is read as it was. -/

namespace MarkupIds.Xml

theorem isXmlChar_of_isNameChar {c : Char} (h : isNameChar c = true) : isXmlChar c = true := by
  simp only [isNameChar, isLocalChar, isLocalStart, within, nameStartRanges, nameFurtherRanges, List.any_cons,
    List.any_nil, Bool.or_eq_true, Bool.and_eq_true, decide_eq_true_eq, beq_iff_eq, Bool.or_false] at h
  simp only [isXmlChar, Bool.or_eq_true, Bool.and_eq_true, decide_eq_true_eq, beq_iff_eq]
  obtain rfl | h := h
  · decide
  · omega

namespace Reading

variable {α β : Type} {s s' t : State} {attr : List Char}

section Parts

theorem Each.rest_eq {f : α → Reading β} {l : List α} (h : Each f l s t) (hf : ∀ a, Keeps (f a)) : t.rest = s.rest := by
  induction h with
  | nil s => rfl
  | @cons a b l s m t first more ih => exact ih.trans (hf a s b m first)

theorem NamesChecked.rest_eq {scope : Scope} {owner : Option (List Char)} {name : List Char} {plain : List Given}
    (h : NamesChecked scope owner name plain s t) : t.rest = s.rest := by
  obtain ⟨m, m₁, m₂, huris, hdistinct, hnote, hids⟩ := h
  have hkeeps : Keeps (noteOwner scope owner name) := by
    unfold noteOwner
    cases owner with
    | none => exact .pure _
    | some p => exact (Keeps.note _).ite (.pure _)
  rw [hids.rest_eq (.checkId []), hkeeps _ _ _ hnote, Keeps.distinct _ _ _ _ hdistinct,
    huris.rest_eq (.attributeUri scope name)]

namespace GivenRun

variable {u : State} {bound bound' : Scope} {attributes : List WrittenAttribute} {gs : List Given}

theorem blank {rules : List AttributeRule} (h : GivenRun rules s bound attributes gs u bound') :
    ∀ a ∈ attributes, ∀ c ∈ a.lead, isSpace c = true := by
  induction h with
  | nil => exact List.forall_mem_nil _
  | cons _ blank _ _ _ _ _ ih => exact List.forall_mem_cons.mpr ⟨blank, ih⟩

/-- An attribute without a colon in its name has no owner. -/
theorem owner_eq_none (h : GivenRun [] s bound attributes gs u bound') (hs : Undeclared s.docType) :
    ∀ g ∈ gs, ':' ∉ g.fullName → g.owner = none := by
  induction h with
  | nil => exact List.forall_mem_nil _
  | @cons s m t u bound bound' bound'' a g attributes gs proper blank name text read binds more ih =>
      have hs' : Undeclared (s.advance a.lead.length).docType := by simpa using hs
      have hm : Undeclared m.docType := (Takes.given []).steady.undeclaring _ _ _ hs' read
      refine List.forall_mem_cons.mpr ⟨fun hcolon => (given_plain hs' read hcolon).1, ih ?_⟩
      exact Undeclaring.bindGiven bound g _ _ _ hm binds

end GivenRun

theorem length_lt_dropWhile {p : Char → Bool} {l r : List Char} {c : Char} (hc : c ∈ l) (hp : p c = false) :
    r.length < ((l ++ r).dropWhile p).length := by
  have hne : l.dropWhile p ≠ [] := fun hnil => by
    rw [List.dropWhile_eq_nil_iff.mp hnil c hc] at hp
    cases hp
  rw [List.dropWhile_append, if_neg (by simpa using hne), List.length_append]
  have hpos := List.length_pos_iff.mpr hne
  omega

/-- There are fewer attributes than characters behind the first white space. -/
theorem length_le_of_attributes {attributes : List WrittenAttribute} (hproper : ∀ a ∈ attributes, a.Proper) (r : List Char) :
    attributes.length ≤ ((attributes.flatMap WrittenAttribute.text ++ r).dropWhile isSpace).length := by
  have hlength (attributes : List WrittenAttribute) :
      attributes.length ≤ (attributes.flatMap WrittenAttribute.text ++ r).length := by
    induction attributes with
    | nil => exact Nat.zero_le _
    | cons a attributes ih =>
        rw [List.flatMap_cons, List.append_assoc, List.length_append, List.length_cons]
        have hpos : 0 < a.text.length := by
          rw [WrittenAttribute.text, List.length_append, List.length_cons]
          omega
        omega
  cases attributes with
  | nil => exact Nat.zero_le _
  | cons a attributes =>
      have hquote : isSpace a.quote = false := by
        obtain hq | hq := (hproper a List.mem_cons_self).quote <;> rw [hq] <;> decide
      rw [List.flatMap_cons, List.append_assoc, List.length_cons]
      exact Nat.succ_le_of_lt ((hlength attributes).trans_lt
        (length_lt_dropWhile (c := a.quote) (by simp [WrittenAttribute.text]) hquote))

/-- No name goes on at the attributes of a tag, or at its end. -/
theorem stops_attributes {attributes : List WrittenAttribute} (hproper : ∀ a ∈ attributes, a.Proper)
    (hblank : ∀ a ∈ attributes, ∀ c ∈ a.lead, isSpace c = true) {blanks : List Char}
    (hblanks : ∀ c ∈ blanks, isSpace c = true) (closed : Bool) (r : List Char) :
    Stops (attributes.flatMap WrittenAttribute.text ++ (blanks ++ (tagEnd closed ++ r))) := by
  have hspace {c : Char} (hc : isSpace c = true) : isNameChar c = false ∧ c ≠ '\x00' := by
    refine ⟨?_, ?_⟩
    · by_contra hname
      rw [isSpace_of_isNameChar (Bool.not_eq_false _ ▸ hname)] at hc
      cases hc
    · rintro rfl
      exact absurd hc (by decide)
  cases attributes with
  | nil =>
      cases blanks with
      | nil => cases closed <;> exact ⟨_, rfl, by decide, by decide⟩
      | cons c blanks => exact ⟨c, rfl, hspace (hblanks c List.mem_cons_self)⟩
  | cons a attributes =>
      cases hlead : a.lead with
      | nil => exact absurd hlead (hproper a List.mem_cons_self).lead_ne
      | cons c lead =>
          refine ⟨c, ?_, hspace (hblank a List.mem_cons_self c (hlead ▸ List.mem_cons_self))⟩
          rw [List.flatMap_cons, WrittenAttribute.text, hlead]
          rfl

end Parts

/-- A start tag in its place in the twin: the same one, or one in which an attribute is put. -/
def StandsIn (attr : List Char) (w w' : StartTag) : Prop :=
  w' = w ∨ ∃ x, (∀ c ∈ x, isXmlChar c = true) ∧ w' = w.put attr x

namespace StandsIn

variable {w w' : StartTag}

theorem name_eq (h : StandsIn attr w w') : w'.name = w.name := by
  obtain rfl | ⟨x, -, rfl⟩ := h <;> rfl

theorem tail_eq (h : StandsIn attr w w') : w'.tail = w.tail := by
  obtain rfl | ⟨x, -, rfl⟩ := h <;> rfl

theorem blank (h : StandsIn attr w w') (hblank : ∀ a ∈ w.attributes, ∀ c ∈ a.lead, isSpace c = true) :
    ∀ a ∈ w'.attributes, ∀ c ∈ a.lead, isSpace c = true := by
  obtain rfl | ⟨x, -, rfl⟩ := h
  · exact hblank
  · intro a ha
    obtain ha | ha := List.mem_append.mp ha
    · exact hblank a (List.mem_filter.mp ha).1
    · obtain rfl := List.mem_singleton.mp ha
      exact List.forall_mem_singleton.mpr rfl

end StandsIn

section Tag

/-- The attributes of the tag are read, those apart that have made place for the one that is put in. -/
theorem GivenRun.standsIn {m m' u : State} {bound : Scope} {w w' : StartTag} {written : List Given} {r : List Char}
    (h : GivenRun [] m [] w.attributes written u bound) (hattr : isLocalName attr = true) (hxmlns : attr ≠ "xmlns".toList)
    (hw : StandsIn attr w w') (hproper : w'.Proper) (hlike : Like m m')
    (hm' : m'.rest = w'.attributes.flatMap WrittenAttribute.text ++ r) :
    ∃ (keep : List Char → Bool) (extra : List Given) (u' : State), (∀ n, keep n = false → ':' ∉ n) ∧
      (∀ g ∈ extra, keep g.fullName = false ∧ g.owner = none ∧ g.binds? = none) ∧ extra.length ≤ 1 ∧
        GivenRun [] m' [] w'.attributes (written.filter (fun g => keep g.fullName) ++ extra) u' bound ∧ u'.rest = r ∧
          Like u u' := by
  obtain rfl | ⟨x, hx, rfl⟩ := hw
  · have hkeep : ∀ n, (fun _ : List Char => true) n = false → ':' ∉ n ∧ n ≠ "xmlns".toList := fun _ h => nomatch h
    have hall : (w'.attributes.filter fun _ => true) = w'.attributes := List.filter_eq_self.mpr fun _ _ => rfl
    obtain ⟨u', hrun, hu', hlike'⟩ := h.filter hkeep hlike (by rw [hall]; exact hm')
    rw [hall] at hrun
    refine ⟨fun _ => true, [], u', fun n hn => (hkeep n hn).1, List.forall_mem_nil _, Nat.zero_le _, ?_, hu', hlike'⟩
    rw [List.append_nil]
    exact hrun
  · have hname {n : List Char} (hn : (n != attr) = false) : n = attr := by simpa using hn
    have hkeep : ∀ n, (fun n : List Char => n != attr) n = false → ':' ∉ n ∧ n ≠ "xmlns".toList := fun n hn => by
      rw [hname hn]
      exact ⟨not_colon_of_isLocalName hattr, hxmlns⟩
    rw [StartTag.put, List.flatMap_append, List.append_assoc, List.flatMap_singleton] at hm'
    obtain ⟨v, hrun, hv, hlike₁⟩ := h.filter hkeep hlike hm'
    obtain ⟨g, u', hadded, howner, hgname, hu', hlike₂⟩ := GivenRun.added hlike₁.symm.undeclared hattr hxmlns hx bound
      (hproper.attributes _ (List.mem_append_right _ List.mem_cons_self)) hv
    have hfull : g.fullName = attr := by rw [Given.fullName, howner, hgname]
    have hbinds : g.binds? = none := by
      rw [Given.binds?, howner, hgname]
      dsimp only
      rw [if_neg (by simpa using hxmlns)]
    refine ⟨fun n => n != attr, [g], u', fun n hn => (hkeep n hn).1, ?_, Nat.le_refl 1, hrun.append hadded, hu',
      hlike₁.trans hlike₂⟩
    exact List.forall_mem_singleton.mpr ⟨by rw [hfull]; exact bne_self_eq_false attr, howner, hbinds⟩

/-- A start tag is read in the twin as it is read in the text. -/
theorem startTag_standsIn {outer : Scope} {tag : Markup.Tag} {e : Open} {closed : Bool} {y : List Char}
    (h : startTag outer s = .ok ((tag, e, closed), t)) (hs : s.rest = '<' :: y) (hogham : oghamSpace ∉ inTag y)
    (hattr : isLocalName attr = true) (hxmlns : attr ≠ "xmlns".toList) (hlike : Like s s') :
    ∃ w, Token.Found s.rest (.opening w) t.rest ∧ (∀ c ∈ w.name, isNameChar c = true) ∧
      ∀ w' r, StandsIn attr w w' → Token.Found s'.rest (.opening w') r →
        ∃ tag' t', startTag outer s' = .ok ((tag', { e with line := s'.line }, closed), t') ∧ t'.rest = r ∧ Like t t' := by
  obtain ⟨m, m₁, m₂, m₃, b, written, bound, hname, hne, hspaces, hgivens, hscope, hnames, hclose, ht⟩ :=
    of_startTag hlike.undeclared h
  rw [hnames.rest_eq] at hclose
  obtain ⟨htag, -, w, hw, hwname, htext⟩ := exists_tag hs hogham hname hne hspaces hgivens hclose
  obtain ⟨u, blanks, hrun, hu, hblanks, hadvance, htail⟩ := hw.gone
  refine ⟨w, htext ▸ .opening t.rest hw.proper, fun c hc => (htag.2 c (hwname ▸ hc)).1, fun w' r hin hfound => ?_⟩
  have hproper := hfound.proper
  have hplain : ∀ g ∈ written.filter fun g => g.binds?.isNone, ':' ∉ g.fullName → g.owner = none := fun g hg =>
    hrun.owner_eq_none (Undeclaring.qualifiedName _ _ _ (by simpa using hlike.undeclared) hname) g (List.mem_filter.mp hg).1
  obtain ⟨q, hq, hagain⟩ := Steady.qualifiedName_atStop _ _ _ (by simpa using hlike.undeclared) hname
  obtain rfl : q = w.name := List.append_cancel_right (hq.symm.trans (hwname ▸ (ran_qualifiedName hname).1))
  have hbehind : (s'.advance 1).rest =
      w.name ++ (w'.attributes.flatMap WrittenAttribute.text ++ (blanks ++ (tagEnd closed ++ r))) := by
    rw [State.rest_advance, hfound.text_eq, Token.text, StartTag.text, hin.name_eq, hin.tail_eq, htail]
    simp [tagEnd]
  have hstops : Stops m.rest := by
    rw [hrun.text_eq, hu, hclose]
    exact stops_attributes hw.proper.attributes hrun.blank hblanks closed _
  have hstops' := stops_attributes hproper.attributes (hin.blank hrun.blank) hblanks closed r
  obtain ⟨m', hname', hm', hlike₁⟩ := hagain _ _ _ (Nat.lt_succ_self _) hbehind (.inr ⟨hstops, hstops'⟩) (hlike.advance 1 1)
  obtain ⟨keep, extra, u', hcolon, hextra, hone, hrun', hu', hlike₂⟩ := hrun.standsIn hattr hxmlns hin hproper hlike₁ hm'
  obtain ⟨b', m₁', hspaces'⟩ : ∃ b' m₁', spaces m' = .ok (b', m₁') := ⟨_, _, rfl⟩
  have hfuel : w'.attributes.length < m₁'.rest.length.succ := by
    rw [(spaces_eq_ok hspaces').1, hm']
    exact Nat.lt_succ_of_le (length_le_of_attributes hproper.attributes _)
  have hend : tagEnd closed = ['>'] ∨ tagEnd closed = ['/', '>'] := by
    cases closed
    · exact .inl rfl
    · exact .inr rfl
  have hgivens' := hrun'.givens hu' hend hblanks hfuel hspaces'
  obtain ⟨m₃', hnames', hm₃', hlike₃⟩ := hnames.mirrored hcolon (fun g hg hkept => hplain g hg (hcolon _ hkept))
    (fun g hg => ⟨(hextra g hg).1, (hextra g hg).2.1⟩) hone (hadvance ▸ hlike₂.advance blanks.length blanks.length)
  have hsame : (written.filter fun g => g.binds?.isNone).filter (fun g => keep g.fullName) ++ extra =
      (written.filter (fun g => keep g.fullName) ++ extra).filter fun g => g.binds?.isNone := by
    have hall : (extra.filter fun g => g.binds?.isNone) = extra := List.filter_eq_self.mpr fun g hg => by
      rw [(hextra g hg).2.2]
      rfl
    rw [List.filter_append, hall, List.filter_filter, List.filter_filter]
    simp only [Bool.and_comm]
  rw [hsame] at hnames'
  rw [State.rest_advance, hu', List.drop_left] at hm₃'
  have hrest : (m₃'.advance (tagEnd closed).length).rest = r := by rw [State.rest_advance, hm₃', List.drop_left]
  have hsteps : TagSteps outer s' { e with line := s'.line } closed (m₃'.advance (tagEnd closed).length) :=
    ⟨m', m₁', _, m₃', b', _, bound, hname', hne, hspaces', hgivens', hscope, hnames', by rw [hm₃', hrest], rfl⟩
  obtain ⟨tag', htag'⟩ := hsteps.startTag hlike.symm.undeclared rfl
  exact ⟨tag', _, htag', hrest, ht ▸ hlike₃.advance _ _⟩

end Tag

end Reading

end MarkupIds.Xml
