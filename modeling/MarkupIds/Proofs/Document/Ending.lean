import MarkupIds.Document
import MarkupIds.Proofs.Html.Ledger
import MarkupIds.Proofs.Html.Refusal
import MarkupIds.Proofs.Jsx.Ledger
import MarkupIds.Proofs.Xml.Agreement

/-! How the work on a document ends: with a text or a failure, and with the one event that tells which. Only
few failures are not told: that of a selector which asks for something that no document offers or is too much for the
host, that of HTML which is refused, that of slugs for elements nested too deeply in a program, and that of slugs for a
document whose document type has quotes or brackets. -/

namespace MarkupIds

/-- The event tells how the work on a document ended. -/
def Event.isEnding (e : Event) : Bool := e.name == "document_processed" || e.name == "document_failed"

/-- The selector has a part that can be read but is not supported. -/
def Options.AsksUnsupported (o : Options) : Prop :=
  ∃ s what offset, o.selector = some s ∧ Selector.parse s = .error (.unsupported what offset)

theorem Options.expected_of_readSelector {o : Options} {format : Format} {failure : Failure}
    (h : o.readSelector format = .error failure) : failure.isExpected = true ∨ o.AsksUnsupported := by
  unfold readSelector at h
  split at h
  next => cases h
  next s hs =>
    split at h
    next => cases h
    next =>
      cases h
      exact .inl rfl
    next what offset hparse => exact .inr ⟨s, what, offset, hs, hparse⟩

/-- What fails in a run over a list fails in one of its steps. -/
theorem of_foldlM_error {σ α ε : Type} {f : σ → α → Except ε σ} {P : ε → Prop}
    (hstep : ∀ s a e, f s a = .error e → P e) {l : List α} {s : σ} {e : ε} (h : l.foldlM f s = .error e) : P e := by
  induction l generalizing s with
  | nil => cases h
  | cons a l ih =>
      rw [List.foldlM_cons] at h
      cases hfirst : f s a with
      | error e' =>
          rw [hfirst] at h
          cases h
          exact hstep s a e hfirst
      | ok s' =>
          rw [hfirst] at h
          exact ih h

namespace Html

theorem expected_of_editFor {o : Options} {source : List Char} {starts : List Nat} {e : Markup.Numbered} {id : String}
    {failure : Failure} (h : editFor o source starts e id = .error failure) : failure.isExpected = true := by
  simp only [editFor] at h
  split at h
  next =>
    cases h
    rfl
  next =>
    split at h
    next => cases h
    next =>
      cases h
      rfl

theorem expected_of_progressFor {o : Options} {source : List Char} {picked : Picked} {elements : List Markup.Numbered}
    {failure : Failure} (h : progressFor o source picked elements = .error failure) : failure.isExpected = true := by
  refine of_foldlM_error (P := fun failure => failure.isExpected = true) (fun p e failure hvisit => ?_) h
  rw [visit_eq] at hvisit
  split at hvisit
  next => cases hvisit
  next element _ =>
    cases hedit : editFor o source (Text.lineStarts source) e
        (Generator.firstFree p.generator.used (Generator.candidate element o)) with
    | ok edit =>
        simp only [hedit] at hvisit
        cases hvisit
    | error failure' =>
        simp only [hedit] at hvisit
        cases hvisit
        exact expected_of_editFor hedit

theorem expected_or_refused {source : List Char} {o : Options} {failure : Failure}
    (h : (assign source o).result = .error failure) :
    failure.isExpected = true ∨ o.AsksUnsupported ∨ IsRefusable source := by
  unfold assign at h
  split at h
  next hselector =>
    cases h
    exact (Options.expected_of_readSelector hselector).imp_right .inl
  next =>
    split at h
    next hrefused => exact .inr (.inr (isRefusable_of_parse hrefused))
    next =>
      simp only [Round.ofNodes_eq] at h
      split at h
      next hprogress =>
        cases h
        exact .inl (expected_of_progressFor hprogress)
      next =>
        dsimp only at h
        split at h
        next => cases h
        next =>
          cases h
          exact .inl rfl

end Html

theorem Jsx.expected_of_error {source : List Char} {o : Options} {read : Reader} {failure : Failure}
    (h : (assign source o read).result = .error failure) : failure.isExpected = true := by
  unfold assign at h
  split at h
  next =>
    cases h
    rfl
  next =>
    dsimp only at h
    split at h
    next =>
      cases h
      rfl
    next => cases h

/-- Where no texts are looked at, or there is one for every start tag, a run over tokens fails only where the tokens
end before the document. -/
theorem Xml.expected_of_assignTokens {source : List Char} {o : Options} {around : Surroundings} {failure : Failure}
    (htexts : around.texts = none) (h : assignTokens source o around = .error failure) : failure.isExpected = true := by
  obtain ⟨p, hfold⟩ : ∃ p, (Token.list source).1.foldlM (Progress.step o around) {} = .ok p := by
    refine exists_foldlM_step fun texts hsome => ?_
    rw [htexts] at hsome
    cases hsome
  unfold assignTokens at h
  simp only [hfold] at h
  split at h
  next => cases h
  next =>
    cases h
    rfl

theorem Xml.expected_or_slug {source : List Char} {o : Options} {failure : Failure}
    (h : (assign source o).result = .error failure) :
    failure.isExpected = true ∨ o.AsksUnsupported ∨
      o.strategy = .slug ∧ (∃ contents, read source = .ok contents) ∧ ¬ OghamFree source := by
  by_cases hblank : Text.allBlank source
  · rw [assign, if_pos hblank] at h
    cases h
  cases hselector : o.readSelector .xml with
  | error failure' =>
      simp only [assign, if_neg hblank, hselector] at h
      cases h
      exact (Options.expected_of_readSelector hselector).imp_right .inl
  | ok selector =>
      cases hread : read source with
      | error problem =>
          simp only [assign, if_neg hblank, hselector, hread] at h
          cases h
          exact .inl rfl
      | ok contents =>
          by_cases hslug : o.strategy = .slug
          · refine .inr (.inr ⟨hslug, ⟨contents, rfl⟩, fun hfree => ?_⟩)
            obtain ⟨tokens, htokens, -⟩ := exists_tokenizes_of_read hfree hread
            rw [assign_eq_ok hblank hselector hread htokens] at h
            cases h
          · left
            cases htokens : assignTokens source o (surroundings o selector contents) with
            | ok p =>
                have hfound := htokens
                simp only [surroundings] at hfound
                simp only [assign, if_neg hblank, hselector, hread, hfound] at h
                cases h
            | error failure' =>
                have hfound := htokens
                simp only [surroundings] at hfound
                simp only [assign, if_neg hblank, hselector, hread, hfound] at h
                cases h
                refine expected_of_assignTokens ?_ htokens
                have hne : (o.strategy == Strategy.slug) = false := beq_eq_false_iff_ne.mpr hslug
                simp only [surroundings, hne, Bool.false_eq_true, if_false]

theorem Format.isEnding_assign {format : Format} {source : List Char} {o : Options} {host : Host} {e : Event}
    (h : e ∈ (format.assign source o host).events) : e.isEnding = false := by
  have hassigned (format : Format) (visited assigned : Nat) (h : e ∈ [o.assignedEvent format visited assigned]) :
      e.isEnding = false := by
    obtain rfl := List.mem_singleton.mp h
    cases format <;> rfl
  unfold Format.assign at h
  split at h
  next => cases h
  next =>
    cases format with
    | html =>
        simp only [Html.assign] at h
        split at h
        next => cases h
        next =>
          split at h
          next => cases h
          next =>
            split at h
            next => cases h
            next => exact hassigned _ _ _ h
    | jsx =>
        simp only [Jsx.assign] at h
        split at h
        next => cases h
        next =>
          split at h
          next => cases h
          next =>
            obtain rfl := List.mem_singleton.mp h
            rfl
    | xml =>
        simp only [Xml.assign] at h
        split at h
        next => cases h
        next =>
          split at h
          next => cases h
          next =>
            split at h
            next => cases h
            next =>
              split at h
              next => cases h
              next => exact hassigned _ _ _ h

/-- The work with the selector on a text breaks off. -/
def Host.BreaksOff (host : Host) (source : List Char) (o : Options) : Prop :=
  ∃ s strain, o.selector = some s ∧ host.breaksOff s source = some strain

namespace Document

/-- Why the end of the work on a document may not be told. -/
def Untold (host : Host) (source : List Char) (o : Options) : Format → Prop
  | .html => o.AsksUnsupported ∨ host.BreaksOff source o ∨ Html.IsRefusable source
  | .jsx => o.strategy = .slug ∧ ∃ trees, host.read source = .ok trees ∧
      Jsx.Node.anyStrains o host.depth (Jsx.nodesOf trees) = true
  | .xml => o.AsksUnsupported ∨ host.BreaksOff source o ∨
      o.strategy = .slug ∧ (∃ contents, Xml.read source = .ok contents) ∧ ¬ Xml.OghamFree source

variable {host : Host} {format : Format} {source : List Char} {o : Options}

/-- What is too much for the host is such a reason. -/
theorem untold_of_strain {strain : Strain} (h : host.strain? format source o = some strain) :
    Untold host source o format := by
  have hselector (h : (o.selector.bind fun s => host.breaksOff s source) = some strain) : host.BreaksOff source o := by
    obtain ⟨s, hs, hstrain⟩ := Option.bind_eq_some_iff.mp h
    exact ⟨s, strain, hs, hstrain⟩
  unfold Host.strain? at h
  cases format with
  | html => exact .inr (.inl (hselector h))
  | xml =>
      dsimp only at h
      split at h
      next => cases h
      next => exact .inr (.inl (hselector h))
  | jsx =>
      dsimp only at h
      split at h
      next => cases h
      next hslug =>
        split at h
        next trees htrees =>
          split at h
          next hstrains => exact ⟨by simpa using hslug, trees, htrees, hstrains⟩
          next => cases h
        next => cases h

theorem untold_of_error {failure : Failure} (h : (format.assign source o host).result = .error failure)
    (hexpected : failure.isExpected = false) : Untold host source o format := by
  have hne : failure.isExpected ≠ true := by rw [hexpected]; exact Bool.false_ne_true
  cases hstrain : host.strain? format source o with
  | some strain => exact untold_of_strain hstrain
  | none =>
      unfold Format.assign at h
      rw [hstrain] at h
      cases format with
      | html => exact ((Html.expected_or_refused h).resolve_left hne).imp_right .inr
      | jsx => exact absurd (Jsx.expected_of_error h) hne
      | xml => exact ((Xml.expected_or_slug h).resolve_left hne).imp_right .inr

/-- The events that tell how the work on a document ended. -/
def endings (events : List Event) : List Event := events.filter Event.isEnding

theorem endings_assign (format : Format) (source : List Char) (o : Options) (host : Host) (last : List Event) :
    endings ((format.assign source o host).events ++ last) = endings last := by
  rw [endings, List.filter_append, List.filter_eq_nil_iff.mpr fun e he => by
    rw [Format.isEnding_assign he]
    exact Bool.false_ne_true]
  rfl

theorem process_of_ok {out : List Char} (h : (format.assign source o host).result = .ok out) :
    process format source o host =
      ⟨(format.assign source o host).events ++ [processedEvent format o source out], .ok out⟩ := by
  simp only [process, h]

theorem process_of_expected {failure : Failure} (h : (format.assign source o host).result = .error failure)
    (hexpected : failure.isExpected = true) :
    process format source o host = ⟨(format.assign source o host).events ++ [failedEvent format failure], .error failure⟩ := by
  simp only [process, h, hexpected, if_true]

theorem process_of_unexpected {failure : Failure} (h : (format.assign source o host).result = .error failure)
    (hexpected : failure.isExpected = false) : process format source o host = format.assign source o host := by
  simp only [process, h, hexpected, Bool.false_eq_true, if_false]

theorem result_process (format : Format) (source : List Char) (o : Options) (host : Host) :
    (process format source o host).result = (format.assign source o host).result := by
  cases hresult : (format.assign source o host).result with
  | ok out => rw [process_of_ok hresult]
  | error failure =>
      cases hexpected : failure.isExpected with
      | true => rw [process_of_expected hresult hexpected]
      | false => rw [process_of_unexpected hresult hexpected, hresult]

/-- The work on a document ends with a text and the one event that tells of it, or with a failure that is expected
and the one event that tells of that. Any other failure has no such event, and there is a reason for it in the
document or in the options. -/
theorem process_ends (format : Format) (source : List Char) (o : Options) (host : Host) :
    (∃ out, (process format source o host).result = .ok out ∧
      endings (process format source o host).events = [processedEvent format o source out]) ∨
    (∃ failure, (process format source o host).result = .error failure ∧ failure.isExpected = true ∧
      endings (process format source o host).events = [failedEvent format failure]) ∨
    (∃ failure, (process format source o host).result = .error failure ∧ failure.isExpected = false ∧
      endings (process format source o host).events = [] ∧ Untold host source o format) := by
  cases hresult : (format.assign source o host).result with
  | ok out =>
      left
      rw [process_of_ok hresult]
      exact ⟨out, rfl, endings_assign format source o host _⟩
  | error failure =>
      right
      cases hexpected : failure.isExpected with
      | true =>
          left
          rw [process_of_expected hresult hexpected]
          exact ⟨failure, rfl, hexpected, endings_assign format source o host _⟩
      | false =>
          right
          rw [process_of_unexpected hresult hexpected]
          have hnone := endings_assign format source o host []
          rw [List.append_nil] at hnone
          exact ⟨failure, hresult, hexpected, hnone, untold_of_error hresult hexpected⟩

/-- A marked section without a known name ends the work on a document, and no event tells of it. -/
theorem process_untold_section :
    let outcome := process .html "<![x]>".toList {}
    (∃ failure, outcome.result = .error failure ∧ failure.isExpected = false) ∧ endings outcome.events = [] := by
  intro outcome
  have hleft : (tryCatch outcome.result fun failure =>
      if failure.isExpected then .ok [] else .error failure).isOk = false := by decide +kernel
  have hevents : outcome.events.isEmpty = true := by decide +kernel
  rw [List.isEmpty_iff.mp hevents]
  refine ⟨?_, rfl⟩
  cases hresult : outcome.result with
  | ok out =>
      rw [hresult] at hleft
      cases hleft
  | error failure =>
      refine ⟨failure, rfl, ?_⟩
      by_contra hexpected
      rw [hresult] at hleft
      simp only [tryCatch, tryCatchThe, MonadExceptOf.tryCatch, Except.tryCatch, hexpected, if_true] at hleft
      cases hleft

end Document

end MarkupIds
