import MarkupIds.Proofs.Xml.Ledger
import MarkupIds.Proofs.Xml.Tree

/-! A second run over an XML document that has its ids. Its tokens are those of the first run with the start
tags written anew, and what they ask for, if anything, is what they have. -/

namespace MarkupIds.Xml

open MarkupIds.Markup (Numbered)

variable {o : Options} {around : Surroundings}

section Runs

theorem openTag_eq_ok {p : Progress} {t : StartTag}
    (htexts : ∀ texts, around.texts = some texts → p.visited < texts.length) :
    p.openTag o around t = .ok (openedBy o p t (request o around p.visited p.openRanks t)) := by
  suffices hok : ∃ q, p.openTag o around t = .ok q by
    obtain ⟨q, hq⟩ := hok
    rw [← openTag_ok hq]
    exact hq
  simp only [Progress.openTag]
  split
  · split
    next hmissing =>
      obtain ⟨texts, htext, hnone⟩ := Option.map_eq_some_iff.mp hmissing
      have hlt := htexts texts htext
      rw [List.getElem?_eq_none_iff] at hnone
      omega
    next =>
      split
      · exact ⟨_, rfl⟩
      · exact ⟨_, rfl⟩
  · exact ⟨_, rfl⟩

/-- A run over tokens goes well where there is a text for every start tag. -/
theorem exists_foldlM_step {tokens : List Token} {p : Progress}
    (htexts : ∀ texts, around.texts = some texts → p.visited + tokens.countP Token.isOpening ≤ texts.length) :
    ∃ q, tokens.foldlM (Progress.step o around) p = .ok q := by
  induction tokens generalizing p with
  | nil => exact ⟨p, rfl⟩
  | cons token tokens ih =>
      rw [List.foldlM_cons]
      cases token with
      | opening t =>
          have hcount : (Token.opening t :: tokens).countP Token.isOpening = tokens.countP Token.isOpening + 1 :=
            List.countP_cons
          have hstep := openTag_eq_ok (o := o) (p := p) (t := t) fun texts h => by
            have hle := htexts texts h
            omega
          rw [Progress.step, hstep]
          refine ih fun texts h => ?_
          have hle := htexts texts h
          have hvisited : (openedBy o p t (request o around p.visited p.openRanks t)).visited = p.visited + 1 := by
            cases request o around p.visited p.openRanks t <;> rfl
          omega
      | closing raw => exact ih htexts
      | other raw => exact ih htexts

/-- A document that can be read gets its start tags written anew. -/
theorem assign_eq_ok {source : List Char} {tokens : List Token} {contents : Contents}
    {selector : Option Selector.Choice} (hblank : ¬ Text.allBlank source)
    (hselector : o.readSelector .xml = .ok selector) (hread : read source = .ok contents)
    (htokens : Tokenizes source tokens) :
    (assign source o).result =
      .ok (((served o (surroundings o selector contents) tokens).map (rewritten o)).flatMap Token.text) := by
  have hcount := length_list_of_read hread ⟨tokens, htokens, rfl⟩
  obtain ⟨p, hfold⟩ : ∃ q, tokens.foldlM (Progress.step o (surroundings o selector contents)) {} = .ok q := by
    refine exists_foldlM_step fun texts htexts => ?_
    simp only [surroundings] at htexts
    split at htexts
    · cases htexts
      simp [hcount]
    · cases htexts
  have htext : p.text = ((served o (surroundings o selector contents) tokens).map (rewritten o)).flatMap Token.text := by
    rw [Progress.text, (foldlM_step hfold).1, List.append_nil, List.reverse_reverse]
    rfl
  have htokensOf : assignTokens source o (surroundings o selector contents) = .ok p := by
    unfold assignTokens
    rw [htokens.list_eq]
    simp only [hfold]
    rfl
  unfold assign
  rw [if_neg hblank]
  simp only [hselector, hread]
  simp only [surroundings] at htokensOf
  simp only [htokensOf, htext, surroundings]

end Runs

section Tokens

theorem Tokenizes.proper_of_mem {s : List Char} {tokens : List Token} (h : Tokenizes s tokens) {t : StartTag}
    (ht : .opening t ∈ tokens) : t.Proper := by
  induction h with
  | done => cases ht
  | next found more ih =>
      obtain hfirst | hrest := List.mem_cons.mp ht
      · exact (hfirst ▸ found).proper
      · exact ih hrest

theorem forall₂_rewritten (entries : List (Token × Option String))
    (hproper : ∀ t, .opening t ∈ entries.map Prod.fst → t.Proper) :
    List.Forall₂ Tokenizes.Rewrites (entries.map Prod.fst) (entries.map (rewritten o)) := by
  induction entries with
  | nil => exact .nil
  | cons entry entries ih =>
      refine .cons ?_ (ih fun t ht => hproper t (List.mem_cons_of_mem _ ht))
      obtain ⟨token, given⟩ := entry
      cases token with
      | opening t =>
          cases given with
          | none => exact .inl rfl
          | some id =>
              exact .inr ⟨t, _, rfl, rfl, (hproper t List.mem_cons_self).withId o.attr_plain o.overwrite id.toList⟩
      | closing raw => exact .inl rfl
      | other raw => exact .inl rfl

/-- The tokens of a document after a run are the tokens with the start tags written anew. -/
theorem Tokenizes.served {s : List Char} {tokens : List Token} (h : Tokenizes s tokens) (o : Options)
    (around : Surroundings) :
    Tokenizes (((served o around tokens).map (rewritten o)).flatMap Token.text)
      ((served o around tokens).map (rewritten o)) := by
  have hfst := map_fst_served o around tokens
  have hnew := forall₂_rewritten (o := o) (Xml.served o around tokens) fun t ht =>
    h.proper_of_mem (hfst ▸ ht)
  rw [hfst] at hnew
  exact (h.rewrite hnew).1

/-- A text without brackets is one token. -/
theorem exists_tokenizes_of_not_mem {s : List Char} (h : '<' ∉ s) : ∃ tokens, Tokenizes s tokens := by
  by_cases hnil : s = []
  · rw [hnil]
    exact ⟨_, .done⟩
  · have hfound : Token.Found (s ++ []) (.other s) [] :=
      .text hnil (fun c hc => bne_iff_ne.mpr fun heq => h (heq ▸ hc)) fun c hc => by cases hc
    rw [List.append_nil] at hfound
    exact ⟨_, .next hfound .done⟩

end Tokens

section Keeping

theorem existing?_withId_ne_none (hkeep : o.overwrite = false) (t : StartTag) (id : List Char) :
    Progress.existing? o (t.withId o.overwrite o.attr id) ≠ none := by
  rw [Progress.existing?, findAttribute, StartTag.withId, hkeep]
  simp

theorem request_of_mem_requests {tokens : List Token} {visited : Nat} {openRanks : List Nat} {t : StartTag}
    {asked : Option Descriptor} (h : (.opening t, asked) ∈ requests o around visited openRanks tokens) :
    ∃ rank ranks, asked = request o around rank ranks t := by
  induction tokens generalizing visited openRanks with
  | nil => cases h
  | cons token tokens ih =>
      cases token with
      | opening t' =>
          obtain h | h := List.mem_cons.mp h
          · cases h
            exact ⟨_, _, rfl⟩
          · exact ih h
      | closing raw =>
          obtain h | h := List.mem_cons.mp h
          · cases h
          · exact ih h
      | other raw =>
          obtain h | h := List.mem_cons.mp h
          · cases h
          · exact ih h

/-- What a start tag asks for names it, and it is admitted. -/
theorem request_eq_some {rank : Nat} {openRanks : List Nat} {t : StartTag} {element : Descriptor}
    (h : request o around rank openRanks t = some element) :
    o.admits (String.ofList t.name) (Progress.existing? o t) = true ∧ element.name = String.ofList t.name := by
  unfold request at h
  split at h
  next hadmits =>
    cases h
    exact ⟨(Bool.and_eq_true_iff.mp hadmits).2, rfl⟩
  next => cases h

/-- A start tag with its id, or one that did not ask for any, is not admitted where ids are kept. -/
theorem admits_rewritten (hkeep : o.overwrite = false) (hpicked : around.picked = none) {tokens : List Token}
    {t : StartTag} (ht : .opening t ∈ (served o around tokens).map (rewritten o)) :
    o.admits (String.ofList t.name) (Progress.existing? o t) = false := by
  obtain ⟨⟨token, given⟩, hmem, hrewritten⟩ := List.mem_map.mp ht
  cases given with
  | some id =>
      obtain ⟨t', rfl⟩ := givenToOpenings_served o around tokens token id hmem
      cases hrewritten
      rw [Options.admits, hkeep, Bool.or_false, Option.isNone_eq_false_iff.mpr
        (Option.isSome_iff_ne_none.mpr (hkeep ▸ existing?_withId_ne_none hkeep t' id.toList))]
      rfl
  | none =>
      have htoken : token = .opening t := by
        rw [← hrewritten]
        cases token <;> rfl
      subst htoken
      obtain ⟨rank, ranks, hrequest⟩ := request_of_mem_requests (Generator.none_mem_of_mem_serve hmem)
      rw [request, hpicked] at hrequest
      by_contra hadmits
      rw [Bool.not_eq_false] at hadmits
      rw [hadmits] at hrequest
      cases hrequest

theorem requests_of_not_admits {tokens : List Token} (h : ∀ t, .opening t ∈ tokens →
    o.admits (String.ofList t.name) (Progress.existing? o t) = false) (visited : Nat) (openRanks : List Nat) :
    requests o around visited openRanks tokens = tokens.map (·, none) := by
  induction tokens generalizing visited openRanks with
  | nil => rfl
  | cons token tokens ih =>
      have hrest := ih fun t ht => h t (List.mem_cons_of_mem _ ht)
      cases token with
      | opening t =>
          have hnone : request o around visited openRanks t = none := by
            rw [request, h t List.mem_cons_self, Bool.and_false]
            rfl
          rw [requests, hrest, hnone]
          rfl
      | closing raw => rw [requests, hrest]; rfl
      | other raw => rw [requests, hrest]; rfl

theorem serve_map_none {α : Type} (used : List String) (l : List α) :
    Generator.serve o used (l.map (·, none)) = l.map (·, none) := by
  induction l with
  | nil => rfl
  | cons a l ih => exact congrArg ((a, none) :: ·) ih

theorem map_rewritten_none (tokens : List Token) : (tokens.map (·, none)).map (rewritten o) = tokens := by
  induction tokens with
  | nil => rfl
  | cons token tokens ih =>
      rw [List.map_cons, List.map_cons, ih]
      cases token <;> rfl

/-- A second run that keeps the ids leaves all tokens as they are. -/
theorem rewritten_again_of_keep (hkeep : o.overwrite = false) (hpicked : around.picked = none) (around' : Surroundings)
    (tokens : List Token) :
    (served o around' ((served o around tokens).map (rewritten o))).map (rewritten o) =
      (served o around tokens).map (rewritten o) := by
  generalize htokens : (served o around tokens).map (rewritten o) = tokens'
  have hadmits (t : StartTag) (ht : .opening t ∈ tokens') :
      o.admits (String.ofList t.name) (Progress.existing? o t) = false :=
    admits_rewritten hkeep hpicked (htokens ▸ ht)
  rw [served, requests_of_not_admits hadmits, serve_map_none, map_rewritten_none]

end Keeping

section Overwriting

/-- Where ids are overwritten and no text is looked at, a start tag with its id asks for what it asked for. -/
theorem request_withId (hoverwrite : o.overwrite = true) (rank : Nat) (openRanks : List Nat) (t : StartTag)
    (id : List Char) :
    request o around rank openRanks (t.withId o.overwrite o.attr id) = request o around rank openRanks t := by
  unfold request Options.admits
  rw [hoverwrite, Bool.or_true, Bool.or_true]
  rfl

theorem map_snd_requests_rewritten (hoverwrite : o.overwrite = true) {entries : List (Token × Option String)}
    (visited : Nat) (openRanks : List Nat) :
    (requests o around visited openRanks (entries.map (rewritten o))).map Prod.snd =
      (requests o around visited openRanks (entries.map Prod.fst)).map Prod.snd := by
  induction entries generalizing visited openRanks with
  | nil => rfl
  | cons entry entries ih =>
      obtain ⟨token, given⟩ := entry
      cases token with
      | opening t =>
          cases given with
          | none => exact congrArg (_ :: ·) (ih _ _)
          | some id =>
              simp only [List.map_cons, rewritten, requests, request_withId hoverwrite]
              exact congrArg (_ :: ·) (ih _ _)
      | closing raw => cases given <;> exact congrArg (none :: ·) (ih _ _)
      | other raw => cases given <;> exact congrArg (none :: ·) (ih _ _)

theorem map_rewritten_again (hoverwrite : o.overwrite = true) {entries entries' : List (Token × Option String)}
    (htokens : entries'.map Prod.fst = entries.map (rewritten o))
    (hgiven : entries'.map Prod.snd = entries.map Prod.snd) :
    entries'.map (rewritten o) = entries.map (rewritten o) := by
  induction entries generalizing entries' with
  | nil =>
      obtain rfl := List.map_eq_nil_iff.mp htokens
      rfl
  | cons entry entries ih =>
      obtain ⟨entry', entries', rfl, htoken, htokens⟩ := List.map_eq_cons_iff.mp htokens
      obtain ⟨hfirst, hgiven⟩ := List.cons.inj hgiven
      rw [List.map_cons, List.map_cons, ih htokens hgiven]
      refine congrArg (· :: _) ?_
      obtain ⟨token, given⟩ := entry
      obtain ⟨token', given'⟩ := entry'
      obtain rfl : given' = given := hfirst
      obtain rfl : token' = rewritten o (token, given') := htoken
      cases token with
      | opening t =>
          cases given' with
          | none => rfl
          | some id =>
              change Token.opening _ = Token.opening _
              rw [hoverwrite, StartTag.withId_withId]
      | closing raw => cases given' <;> rfl
      | other raw => cases given' <;> rfl

/-- A second run that overwrites the ids, without looking at texts, gives the same ones. -/
theorem rewritten_again_of_overwrite (hoverwrite : o.overwrite = true) (tokens : List Token) :
    (served o around ((served o around tokens).map (rewritten o))).map (rewritten o) =
      (served o around tokens).map (rewritten o) := by
  refine map_rewritten_again hoverwrite (map_fst_served _ _ _) ?_
  refine Generator.map_snd_serve_congr o [] ?_
  rw [map_snd_requests_rewritten hoverwrite, map_fst_served]

end Overwriting

/-- A second run over a document with ids leaves it as it is, and finds a token for every part of it. Texts are
not looked at where ids are overwritten. -/
theorem assign_again {source out : List Char} {contents : Contents} (htype : Typeless source)
    (hselector : o.selector = none) (hstrategy : o.overwrite = true → o.strategy = .hash ∨ o.strategy = .path)
    (h : (assign source o).result = .ok out) (hread : read out = .ok contents) :
    (Token.list out).2 = [] ∧ (assign out o).result = .ok out := by
  have hnone : o.readSelector .xml = .ok none := by rw [Options.readSelector, hselector]
  have hblankOut (hblank : Text.allBlank out) : (assign out o).result = .ok out := by
    unfold assign
    rw [if_pos hblank]
  obtain ⟨hblank, rfl, -⟩ | ⟨hblank, selector, contents', visited, hselected, hread', hrest, -⟩ := assign_ok h
  · obtain ⟨tokens, htokens⟩ := exists_tokenizes_of_not_mem fun hmem =>
      absurd (List.all_eq_true.mp hblank _ hmem) (by decide)
    exact ⟨by rw [htokens.list_eq], hblankOut hblank⟩
  · obtain rfl : none = selector := Except.ok.inj (hnone.symm.trans hselected)
    have htokens := Tokenizes.of_list (Prod.ext rfl hrest) htype
    generalize (Token.list source).1 = tokens at htokens
    have hnew := htokens.served o (surroundings o none contents')
    rw [assign_eq_ok hblank hnone hread' htokens] at h
    have hout := Except.ok.inj h
    rw [hout] at hnew
    refine ⟨by rw [hnew.list_eq], ?_⟩
    by_cases hblank' : Text.allBlank out
    · exact hblankOut hblank'
    rw [assign_eq_ok hblank' hnone hread hnew, ← hout]
    refine congrArg (fun tokens : List Token => Except.ok (tokens.flatMap Token.text)) ?_
    cases hoverwrite : o.overwrite with
    | false => exact rewritten_again_of_keep hoverwrite rfl _ _
    | true =>
        have haround : surroundings o none contents = surroundings o none contents' := by
          have hslug : (o.strategy == Strategy.slug) = false := by
            obtain hs | hs := hstrategy hoverwrite <;> rw [hs] <;> rfl
          unfold surroundings
          rw [hslug]
          rfl
        rw [haround]
        exact rewritten_again_of_overwrite hoverwrite _

theorem exists_of_isOk {ε α : Type} {x : Except ε α} (h : x.isOk = true) : ∃ a, x = .ok a := by
  cases x with
  | error problem => cases h
  | ok a => exact ⟨a, rfl⟩

theorem assign_again_list :
    let o : Options := { strategy := .path, overwrite := true }
    let source := "<list><item data-ast-id='old' note=\"a>b\"/> <!-- <item/> --></list>".toList
    let out := "<list data-ast-id=\"el-list-0\"><item note=\"a>b\" data-ast-id=\"el-item-0-1\"/> <!-- <item/> --></list>".toList
    Typeless source ∧ o.selector = none ∧ o.strategy = .path ∧ (assign source o).result = .ok out ∧
      (read out).isOk = true ∧ (Token.list out).2 = [] ∧ (assign out o).result = .ok out := by
  intro o source out
  have htype : Typeless source := by
    unfold Typeless
    decide +kernel
  have hresult : (assign source o).result = .ok out := Outcome.result_eq_ok_iff.mpr (by decide +kernel)
  have hread : (read out).isOk = true := by decide +kernel
  obtain ⟨contents, hcontents⟩ := exists_of_isOk hread
  exact ⟨htype, rfl, rfl, hresult, hread, assign_again htype rfl (fun _ => .inr rfl) hresult hcontents⟩

end MarkupIds.Xml
