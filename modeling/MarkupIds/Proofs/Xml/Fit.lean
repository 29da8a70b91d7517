import MarkupIds.Proofs.Xml.TwinDocument
import MarkupIds.Proofs.Ident.Slug
import MarkupIds.Proofs.Xml.SecondRun

/-! Documents stay fit: with ids put in, a document is the twin of what it was, so it can be read again. -/

namespace MarkupIds.Xml

variable {o : Options} {around : Surroundings}

section Ids

theorem isXmlChar_of_isKept {c : Char} (h : Slug.isKept c = true) : isXmlChar c = true := by
  by_contra hnot
  have hgap : Slug.isKept c = false := by
    have hvalid : c.toNat < 0xD800 ∨ 0xDFFF < c.toNat := c.valid.imp_right And.left
    simp only [isXmlChar, Bool.or_eq_true, Bool.and_eq_true, decide_eq_true_eq, beq_iff_eq] at hnot
    refine Slug.isKept_of_gaps [(0, 8), (0xB, 0xC), (0xE, 0x1F), (0xFFFE, 0xFFFF)] (by decide +kernel) ?_
    simp only [List.mem_cons, List.not_mem_nil, or_false, exists_eq_or_imp, exists_eq_left]
    omega
  rw [h] at hgap
  cases hgap

theorem withId_eq_put {t : StartTag} (h : o.admits (String.ofList t.name) (Progress.existing? o t) = true)
    (id : List Char) : t.withId o.overwrite o.attr id = t.put o.attr id := by
  unfold StartTag.withId StartTag.put
  cases hoverwrite : o.overwrite with
  | true => rfl
  | false =>
      have hkeep : ¬ o.overwrite = true := by rw [hoverwrite]; exact Bool.false_ne_true
      have hnone := (Options.overwrite_or_eq_none_of_admits h).resolve_left hkeep
      have hkept : t.attributes.filter (fun a => a.name != o.attr) = t.attributes := by
        refine List.filter_eq_self.mpr fun a ha => ?_
        have hfind := List.find?_eq_none.mp (Option.map_eq_none_iff.mp hnone) _ (List.mem_map_of_mem ha)
        simpa using hfind
      rw [hkept]
      rfl

/-- A start tag that is written anew is altered by an attribute that can stand there. -/
theorem altered_of_mem_served (hfront : ∀ c ∈ o.idPrefix.toList, isXmlChar c = true) {tokens : List Token}
    {entry : Token × Option String} (h : entry ∈ served o around tokens) :
    Altered o.attr entry.1 (rewritten o entry) := by
  obtain ⟨token, given⟩ := entry
  cases given with
  | none =>
      have hsame : rewritten o (token, none) = token := by cases token <;> rfl
      rw [hsame]
      exact .same token
  | some id =>
      obtain ⟨element, helement, taken, rfl⟩ := Generator.of_mem_serve h
      obtain ⟨t, rfl⟩ := exists_opening_of_mem_requests helement
      obtain ⟨rank, openRanks, hrequest⟩ := request_of_mem_requests helement
      obtain ⟨hadmits, hname⟩ := request_eq_some hrequest.symm
      rw [rewritten, withId_eq_put hadmits]
      refine .put fun hchars c hc => ?_
      obtain hc | hkept := Generator.mem_firstFree hc
      · obtain hc | hc | hkept := Generator.mem_candidate hc
        · exact hfront c hc
        · rw [hname, String.toList_ofList] at hc
          exact hchars c hc
        · exact isXmlChar_of_isKept hkept
      · exact isXmlChar_of_isKept hkept

theorem forall₂_altered (hfront : ∀ c ∈ o.idPrefix.toList, isXmlChar c = true) (tokens : List Token) :
    List.Forall₂ (Altered o.attr) tokens ((served o around tokens).map (rewritten o)) := by
  have hentries : List.Forall₂ (Altered o.attr) ((served o around tokens).map Prod.fst)
      ((served o around tokens).map (rewritten o)) :=
    List.forall₂_map_left_iff.mpr (List.forall₂_map_right_iff.mpr
      (List.forall₂_same.mpr fun _ => altered_of_mem_served hfront))
  rwa [map_fst_served] at hentries

end Ids

/-- A text can be read if its document can, and the last problem that was noted is no error. -/
theorem exists_read_iff {source : List Char} : (∃ contents, read source = .ok contents) ↔
    ∃ pieces s, Reading.document { rest := joinLineEnds (withoutMark source) } = .ok (pieces, s) ∧
      s.tone ≠ some .error := by
  unfold read
  cases hdocument : Reading.document.run { rest := joinLineEnds (withoutMark source) } with
  | error problem =>
      constructor
      · rintro ⟨contents, h⟩
        cases h
      · rintro ⟨pieces, s, h, -⟩
        cases (show Reading.document _ = _ from hdocument).symm.trans h
  | ok result =>
      obtain ⟨pieces, s⟩ := result
      have hsame : (∃ pieces' s', Reading.document { rest := joinLineEnds (withoutMark source) } = .ok (pieces', s') ∧
          s'.tone ≠ some .error) ↔ s.tone ≠ some .error := by
        refine ⟨?_, fun h => ⟨pieces, s, hdocument, h⟩⟩
        rintro ⟨pieces', s', h, htone⟩
        cases (show Reading.document _ = _ from hdocument).symm.trans h
        exact htone
      rw [hsame, State.tone]
      dsimp only
      cases s.problems with
      | nil => simp
      | cons last others =>
          by_cases hsevere : last.cause.severity = .error
          · simp [hsevere]
          · simp [hsevere]

theorem exists_read_twin {attr source source' : List Char} (hfree : OghamFree source)
    (hattr : isLocalName attr = true) (hxmlns : attr ≠ "xmlns".toList) (htwin : Twin attr source source')
    (hread : ∃ contents, read source = .ok contents) : ∃ contents, read source' = .ok contents := by
  obtain ⟨pieces, t, hdocument, htone⟩ := exists_read_iff.mp hread
  have hstart : Reading.Abreast attr { rest := joinLineEnds (withoutMark source) }
      { rest := joinLineEnds (withoutMark source') } :=
    ⟨⟨⟨false, rfl⟩, rfl, rfl, rfl⟩, htwin.withoutMark.joined⟩
  obtain ⟨pieces', t', hdocument', hend⟩ := hstart.document hdocument hfree.withoutMark.joined hattr hxmlns
  exact exists_read_iff.mpr ⟨pieces', t', hdocument', hend.like.tone ▸ htone⟩

/-- A run that returns leaves a document that can be read, where the attribute has a name without a colon and what is
put in front of the ids can stand in documents. -/
theorem assign_fit {source out : List Char} (hfree : OghamFree source)
    (hattr : isLocalName o.attr = true) (hxmlns : o.attr ≠ "xmlns".toList)
    (hfront : ∀ c ∈ o.idPrefix.toList, isXmlChar c = true) (hread : ∃ contents, read source = .ok contents)
    (h : (assign source o).result = .ok out) : ∃ contents, read out = .ok contents := by
  obtain ⟨-, rfl, -⟩ | ⟨hblank, selector, contents', visited, hselected, hread', -⟩ := assign_ok h
  · exact hread
  · obtain ⟨contents, hread⟩ := hread
    obtain ⟨tokens, htokens, -⟩ := exists_tokenizes_of_read hfree hread
    rw [assign_eq_ok hblank hselected hread' htokens] at h
    cases h
    exact exists_read_twin hfree hattr hxmlns
      (.of_tokenizes htokens (htokens.served o _) (forall₂_altered hfront tokens)) ⟨contents, hread⟩

theorem assign_fit_escaped :
    let source := "<a data-ast-id='x'><b/></a>".toList
    let o : Options := { strategy := .path, idPrefix := "\"<", overwrite := true }
    let out := "<a data-ast-id=\"&quot;&lt;a-0\"><b data-ast-id=\"&quot;&lt;b-0-1\"/></a>".toList
    OghamFree source ∧ isLocalName o.attr = true ∧ o.attr ≠ "xmlns".toList ∧
      (∀ c ∈ o.idPrefix.toList, isXmlChar c = true) ∧ (∃ contents, read source = .ok contents) ∧
      (assign source o).result = .ok out ∧ ∃ contents, read out = .ok contents := by
  intro source o out
  have hfree : OghamFree source :=
    .tag (by decide) (by decide) (by decide) (.tag (by decide) (by decide) (by decide)
      (.tag (by decide) (by decide) (by decide) .done))
  have hattr : isLocalName o.attr = true := by decide
  have hxmlns : o.attr ≠ "xmlns".toList := by decide
  have hfront : ∀ c ∈ o.idPrefix.toList, isXmlChar c = true := List.all_eq_true.mp (by decide)
  have hread : ∃ contents, read source = .ok contents := exists_of_isOk (by decide +kernel)
  have hresult : (assign source o).result = .ok out := Outcome.result_eq_ok_iff.mpr (by decide +kernel)
  exact ⟨hfree, hattr, hxmlns, hfront, hread, hresult, assign_fit hfree hattr hxmlns hfront hread hresult⟩

/-- A closing bracket in the value of an entity ends the document type for the tokens, so a tag of the value gets an id,
and its quotes end the value. Nor can a document be read with an attribute whose name starts with a digit. -/
theorem assign_unfit :
    (let source := "<!DOCTYPE a [<!ENTITY x \"]><b/>\">]><a/>".toList
     let out := "<!DOCTYPE a [<!ENTITY x \"]><b data-ast-id=\"el-b-0\"/>\">]><a data-ast-id=\"el-a-1\"/>".toList
     (read source).isOk = true ∧ (assign source { strategy := .path }).result = .ok out ∧ (read out).isOk = false) ∧
    (let source := "<a/>".toList
     let out := "<a 1=\"el-a-0\"/>".toList
     (read source).isOk = true ∧ (assign source { strategy := .path, attr := ['1'] }).result = .ok out ∧
       (read out).isOk = false) := by
  refine ⟨⟨by decide +kernel, Outcome.result_eq_ok_iff.mpr (by decide +kernel), by decide +kernel⟩, ?_⟩
  exact ⟨by decide +kernel, Outcome.result_eq_ok_iff.mpr (by decide +kernel), by decide +kernel⟩

end MarkupIds.Xml
