import MarkupIds.Proofs.Xml.LineEnds
import MarkupIds.Proofs.Xml.Openings

/-! Tokens found in a text with joined line ends stand in the text itself: each mark of the joined text is
a mark of the text, and what stands between two marks is joined on its own. -/

namespace MarkupIds.Xml

open MarkupIds.Text (isBlank cutAt)

section Characters

variable {s : List Char}

/-- A joined text is parted where the text is. -/
theorem part_joinLineEnds {a b : List Char} {c : Char} (hc : isBlank c = false) (h : joinLineEnds s = a ++ c :: b) :
    ∃ a' b', s = a' ++ c :: b' ∧ joinLineEnds a' = a ∧ joinLineEnds b' = b := by
  induction s using joinLineEnds.induct generalizing a with
  | case1 s ih =>
      rw [joinLineEnds] at h
      cases a with
      | nil =>
          obtain rfl := (List.cons.inj h).1
          exact absurd hc (by decide)
      | cons d a =>
          obtain ⟨rfl, htail⟩ := List.cons.inj h
          obtain ⟨a', b', rfl, rfl, rfl⟩ := ih htail
          exact ⟨'\r' :: '\n' :: a', b', rfl, rfl, rfl⟩
  | case2 d s hs ih =>
      rw [joinLineEnds.eq_2 d s hs] at h
      cases a with
      | nil =>
          obtain ⟨rfl, rfl⟩ := List.cons.inj h
          exact ⟨[], s, rfl, rfl, rfl⟩
      | cons e a =>
          obtain ⟨rfl, htail⟩ := List.cons.inj h
          obtain ⟨a', b', rfl, rfl, rfl⟩ := ih htail
          refine ⟨d :: a', b', rfl, ?_, rfl⟩
          refine joinLineEnds.eq_2 d a' fun u hd hu => ?_
          exact hs (u ++ c :: b') hd (by rw [hu]; rfl)
  | case3 => simp [joinLineEnds] at h

theorem part_joinLineEnds_solid {a b : List Char} (ha : ∀ c ∈ a, isBlank c = false) (h : joinLineEnds s = a ++ b) :
    ∃ b', s = a ++ b' ∧ joinLineEnds b' = b := by
  induction a generalizing s with
  | nil => exact ⟨s, rfl, h⟩
  | cons c a ih =>
      obtain ⟨hc, ha⟩ := List.forall_mem_cons.mp ha
      obtain ⟨a', s', rfl, ha', hs'⟩ := part_joinLineEnds (a := []) hc h
      obtain rfl : a' = [] := by
        by_contra hne
        exact joinLineEnds_ne_nil hne ha'
      obtain ⟨b', rfl, rfl⟩ := ih ha hs'
      exact ⟨b', rfl, rfl⟩

theorem mem_joinLineEnds_or {c : Char} (h : c ∈ s) : c ∈ joinLineEnds s ∨ c = '\r' := by
  induction s using joinLineEnds.induct with
  | case1 s ih =>
      rw [joinLineEnds]
      simp only [List.mem_cons] at h ⊢
      tauto
  | case2 d s hs ih =>
      rw [joinLineEnds.eq_2 d s hs]
      simp only [List.mem_cons] at h ⊢
      tauto
  | case3 => exact absurd h List.not_mem_nil

theorem blank_of_joinLineEnds (h : ∀ c ∈ joinLineEnds s, isBlank c = true) : ∀ c ∈ s, isBlank c = true := by
  intro c hc
  obtain hjoined | rfl := mem_joinLineEnds_or hc
  · exact h c hjoined
  · decide

theorem not_mem_of_joinLineEnds {c : Char} (hc : isBlank c = false) (h : c ∉ joinLineEnds s) : c ∉ s := by
  intro hmem
  obtain hjoined | rfl := mem_joinLineEnds_or hmem
  · exact h hjoined
  · exact absurd hc (by decide)

end Characters

theorem WrittenAttribute.Proper.unjoined {a : WrittenAttribute} (ha : a.Proper) {s rest : List Char}
    (h : joinLineEnds s = a.text ++ rest) :
    ∃ (a' : WrittenAttribute) (rest' : List Char), a'.Proper ∧ s = a'.text ++ rest' ∧ joinLineEnds rest' = rest := by
  have hsolid := ha.name_solid
  have hlead := ha.lead
  obtain ⟨before, behind, hlink, hbefore, hbehind⟩ := ha.link
  have hquote : isBlank a.quote = false := by
    obtain hquote | hquote := ha.quote <;> rw [hquote] <;> decide
  have hvalue := ha.value
  cases hname : a.name with
  | nil => exact absurd hname ha.name_ne
  | cons c name =>
      rw [hname] at hsolid
      obtain ⟨hc, hsolid⟩ := List.forall_mem_cons.mp hsolid
      have htext : joinLineEnds s = a.lead ++ c :: (name ++ (before ++ '=' ::
          (behind ++ a.quote :: (a.value ++ a.quote :: rest)))) := by
        rw [h, text, hname, hlink]
        simp
      obtain ⟨lead', s₁, rfl, hlead', h₁⟩ := part_joinLineEnds hc htext
      obtain ⟨s₂, rfl, h₂⟩ := part_joinLineEnds_solid hsolid h₁
      obtain ⟨before', s₃, rfl, hbefore', h₃⟩ := part_joinLineEnds (by decide) h₂
      obtain ⟨behind', s₄, rfl, hbehind', h₄⟩ := part_joinLineEnds hquote h₃
      obtain ⟨value', rest', rfl, hvalue', hrest⟩ := part_joinLineEnds hquote h₄
      refine ⟨⟨lead', c :: name, before' ++ '=' :: behind', a.quote, value'⟩, rest', ⟨?_, ?_, ?_, ?_, ?_, ha.quote, ?_⟩,
        by simp [text], hrest⟩
      · rintro rfl
        exact ha.lead_ne hlead'.symm
      · exact blank_of_joinLineEnds (by rw [hlead']; exact hlead)
      · exact List.cons_ne_nil _ _
      · exact hname ▸ ha.name
      · exact ⟨before', behind', rfl, blank_of_joinLineEnds (by rw [hbefore']; exact hbefore),
          blank_of_joinLineEnds (by rw [hbehind']; exact hbehind)⟩
      · exact not_mem_of_joinLineEnds hquote (by rw [hvalue']; exact hvalue)

theorem exists_unjoined_attributes {attributes : List WrittenAttribute} (h : ∀ a ∈ attributes, a.Proper)
    {s rest : List Char} (hs : joinLineEnds s = attributes.flatMap WrittenAttribute.text ++ rest) :
    ∃ (attributes' : List WrittenAttribute) (rest' : List Char), (∀ a ∈ attributes', a.Proper) ∧
      s = attributes'.flatMap WrittenAttribute.text ++ rest' ∧ joinLineEnds rest' = rest := by
  induction attributes generalizing s with
  | nil => exact ⟨[], s, List.forall_mem_nil _, rfl, hs⟩
  | cons a attributes ih =>
      obtain ⟨ha, h⟩ := List.forall_mem_cons.mp h
      rw [List.flatMap_cons, List.append_assoc] at hs
      obtain ⟨a', s₁, ha', rfl, h₁⟩ := ha.unjoined hs
      obtain ⟨attributes', rest', h', rfl, hrest⟩ := ih h h₁
      refine ⟨a' :: attributes', rest', List.forall_mem_cons.mpr ⟨ha', h'⟩, ?_, hrest⟩
      rw [List.flatMap_cons, List.append_assoc]

theorem StartTag.Proper.unjoined {t : StartTag} (ht : t.Proper) {s rest : List Char}
    (h : joinLineEnds s = t.text ++ rest) :
    ∃ (t' : StartTag) (rest' : List Char), t'.Proper ∧ s = t'.text ++ rest' := by
  obtain ⟨blanks, hblanks, htail⟩ := ht.tail
  have hsolid : ∀ c ∈ '<' :: t.name, isBlank c = false := List.forall_mem_cons.mpr ⟨by decide, ht.name_solid⟩
  have htext : joinLineEnds s = ('<' :: t.name) ++ (t.attributes.flatMap WrittenAttribute.text ++ (t.tail ++ rest)) := by
    rw [h, text]
    simp
  obtain ⟨s₁, rfl, h₁⟩ := part_joinLineEnds_solid hsolid htext
  obtain ⟨attributes', s₂, hattributes, rfl, h₂⟩ := exists_unjoined_attributes ht.attributes h₁
  have hend {mark : List Char} (hmark : mark = ['>'] ∨ mark = ['/', '>']) (htail : t.tail = blanks ++ mark) :
      ∃ (t' : StartTag) (rest' : List Char), t'.Proper ∧
        ('<' :: t.name) ++ (attributes'.flatMap WrittenAttribute.text ++ s₂) = t'.text ++ rest' := by
    rw [htail, List.append_assoc] at h₂
    obtain ⟨blanks', rest', hs₂, hblanks'⟩ : ∃ blanks' rest', s₂ = blanks' ++ (mark ++ rest') ∧
        joinLineEnds blanks' = blanks := by
      obtain rfl | rfl := hmark
      · obtain ⟨blanks', rest', hs₂, hblanks', -⟩ := part_joinLineEnds (by decide) h₂
        exact ⟨blanks', rest', hs₂, hblanks'⟩
      · obtain ⟨blanks', s₃, hs₂, hblanks', h₃⟩ := part_joinLineEnds (by decide) h₂
        obtain ⟨rest', rfl, -⟩ := part_joinLineEnds_solid
          (List.forall_mem_singleton.mpr rfl : ∀ c ∈ ['>'], isBlank c = false) h₃
        exact ⟨blanks', rest', hs₂, hblanks'⟩
    have hblank := blank_of_joinLineEnds (s := blanks') (by rw [hblanks']; exact hblanks)
    refine ⟨⟨t.name, attributes', blanks' ++ mark⟩, rest', ⟨ht.name_ne, ht.name, hattributes, blanks', hblank, ?_⟩, ?_⟩
    · obtain rfl | rfl := hmark
      · exact .inl rfl
      · exact .inr rfl
    · rw [hs₂, text]
      simp
  obtain htail | htail := htail
  · exact hend (.inl rfl) htail
  · exact hend (.inr rfl) htail

namespace Token

/-- A token found in the joined text is there in the text. -/
theorem Found.unjoined {s rest : List Char} {token : Token} (h : Found (joinLineEnds s) token rest) :
    ∃ token' rest', Found s token' rest' ∧ token = token'.joined ∧ rest = joinLineEnds rest' := by
  suffices hfound : ∃ token' rest', Found s token' rest' by
    obtain ⟨token', rest', hfound⟩ := hfound
    obtain ⟨htoken, hrest⟩ := h.unique hfound.joined
    exact ⟨token', rest', hfound, htoken, hrest⟩
  generalize hs : joinLineEnds s = u at h
  cases h with
  | @aside start mark piece rest kind found =>
      have hsolid := kind.solid
      rw [← hs, afterBetween, after?_joinLineEnds hsolid.1] at found
      obtain ⟨r, hr, hcut⟩ := Option.bind_eq_some_iff.mp found
      obtain ⟨r', hr', rfl⟩ := Option.map_eq_some_iff.mp hr
      rw [cutAt_joinLineEnds (by simp) hsolid.2] at hcut
      obtain ⟨⟨content, rest'⟩, hcontent, -⟩ := Option.map_eq_some_iff.mp hcut
      obtain ⟨⟨content', rest''⟩, hcontent', -⟩ := Option.map_eq_some_iff.mp hcontent
      have htext : s = (start ++ (content' ++ (mark ++ ['>']))) ++ rest'' := by
        rw [Text.after?_eq_some_iff.mp hr', Text.cutAt_eq_some hcontent']
        simp
      refine ⟨.other (start ++ (content' ++ (mark ++ ['>']))), rest'', ?_⟩
      rw [htext]
      refine .aside kind ?_
      rw [← htext, afterBetween, hr', Option.bind_some, hcontent']
      rfl
  | @type body rest plain =>
      obtain ⟨s₁, rfl, h₁⟩ := part_joinLineEnds_solid solid_type hs
      obtain ⟨body', rest', rfl, hbody, -⟩ := part_joinLineEnds (by decide) h₁
      refine ⟨_, rest', .type rest' fun c hc => ?_⟩
      obtain hjoined | rfl := mem_joinLineEnds_or hc
      · exact plain c (hbody ▸ hjoined)
      · decide
  | @closing name blanks rest ne named blank =>
      have hsolid : ∀ c ∈ '<' :: '/' :: name, isBlank c = false := by
        refine List.forall_mem_cons.mpr ⟨by decide, List.forall_mem_cons.mpr ⟨by decide, fun c hc => ?_⟩⟩
        have hname := named c hc
        simp only [isClosingChar, Bool.not_eq_true', Bool.or_eq_false_iff] at hname
        exact hname.1
      obtain ⟨s₁, rfl, h₁⟩ := part_joinLineEnds_solid hsolid hs
      obtain ⟨blanks', rest', rfl, rfl, -⟩ := part_joinLineEnds (by decide) h₁
      exact ⟨_, rest', .closing rest' ne named (blank_of_joinLineEnds blank)⟩
  | @opening t rest proper =>
      obtain ⟨t', rest', ht', rfl⟩ := proper.unjoined hs
      exact ⟨_, rest', .opening rest' ht'⟩
  | @text raw rest ne plain ends =>
      have hraw : '<' ∉ raw := fun hmem => absurd (plain _ hmem) (by decide)
      have hne : ∀ raw' : List Char, joinLineEnds raw' = raw → raw' ≠ [] := by
        rintro _ h rfl
        exact ne h.symm
      have htext (raw' rest' : List Char) (hraw' : joinLineEnds raw' = raw) (hends : ∀ c, rest'.head? = some c → c = '<') :
          Found (raw' ++ rest') (.other raw') rest' := by
        refine .text (hne raw' hraw') (fun c hc => ?_) hends
        rw [bne_iff_ne]
        rintro rfl
        exact not_mem_of_joinLineEnds (by decide) (by rw [hraw']; exact hraw) hc
      cases rest with
      | nil =>
          rw [List.append_nil] at hs
          have hfound := htext s [] hs fun c hc => by cases hc
          rw [List.append_nil] at hfound
          exact ⟨_, [], hfound⟩
      | cons c rest =>
          obtain rfl := ends c rfl
          obtain ⟨raw', rest', rfl, hraw', -⟩ := part_joinLineEnds (by decide) hs
          exact ⟨_, _, htext raw' ('<' :: rest') hraw' fun c hc => (Option.some.inj hc).symm⟩

end Token

/-- The text has the tokens of the joined text. -/
theorem Tokenizes.unjoined {s : List Char} {tokens : List Token} (h : Tokenizes (joinLineEnds s) tokens) :
    ∃ tokens', Tokenizes s tokens' ∧ tokens = tokens'.map Token.joined := by
  generalize hs : joinLineEnds s = u at h
  induction h generalizing s with
  | done =>
      obtain rfl : s = [] := by
        by_contra hne
        exact joinLineEnds_ne_nil hne hs
      exact ⟨[], .done, rfl⟩
  | next found more ih =>
      rw [← hs] at found
      obtain ⟨token', rest', hfound, rfl, rfl⟩ := found.unjoined
      obtain ⟨tokens', hmore, rfl⟩ := ih rfl
      exact ⟨token' :: tokens', .next hfound hmore, rfl⟩

end MarkupIds.Xml
