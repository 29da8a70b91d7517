import MarkupIds.Proofs.Markup.Position
import MarkupIds.Proofs.Xml.Names
import MarkupIds.Proofs.Xml.Retraced
import MarkupIds.Proofs.Xml.SecondRun

/-! The tokens of a document and its two trees have the same elements: at every start tag the pass over the
tokens counts as many elements before it, and has the same elements open, as the trees have before
and around the element. -/

namespace MarkupIds.Xml

open MarkupIds.Markup (Mark Node Numbered Place Tag)

namespace Token

theorem marks_append (a b : List Token) : marks (a ++ b) = marks a ++ marks b := by
  induction a with
  | nil => rfl
  | cons token a ih =>
      cases token with
      | opening t =>
          simp only [List.cons_append, marks, ih]
          split <;> rfl
      | closing raw => simp only [List.cons_append, marks, ih]
      | other raw => exact ih

theorem length_places (tokens : List Token) (rank : Nat) (openRanks : List Nat) :
    (Mark.places rank openRanks (marks tokens)).length = tokens.countP isOpening := by
  induction tokens generalizing rank openRanks with
  | nil => rfl
  | cons token tokens ih =>
      cases token with
      | opening t =>
          have hcount : (opening t :: tokens).countP isOpening = tokens.countP isOpening + 1 := List.countP_cons
          rw [hcount, marks]
          split
          · exact congrArg (· + 1) (ih (rank + 1) openRanks)
          · exact congrArg (· + 1) (ih (rank + 1) (rank :: openRanks))
      | closing raw => exact ih rank (openRanks.drop 1)
      | other raw => exact ih rank openRanks

end Token

section

variable {o : Options} {around : Surroundings}

theorem visited_openedBy (p : Progress) (t : StartTag) (asked : Option Descriptor) :
    (openedBy o p t asked).visited = p.visited + 1 ∧
      (openedBy o p t asked).openRanks = openAfter p.visited p.openRanks t := by
  cases asked <;> exact ⟨rfl, rfl⟩

/-- A pass over tokens counts the places on their marks. -/
theorem places_foldlM_step {tokens : List Token} {p q : Progress}
    (h : tokens.foldlM (Progress.step o around) p = .ok q) (behind : List Token) :
    ∃ passed, Mark.places p.visited p.openRanks (Token.marks (tokens ++ behind)) =
      passed ++ Mark.places q.visited q.openRanks (Token.marks behind) ∧ p.visited + passed.length = q.visited := by
  induction tokens generalizing p with
  | nil =>
      cases h
      exact ⟨[], rfl, rfl⟩
  | cons token tokens ih =>
      rw [List.foldlM_cons] at h
      cases hstep : p.step o around token with
      | error failure => rw [hstep] at h; cases h
      | ok m =>
          rw [hstep] at h
          obtain ⟨passed, hplaces, hlength⟩ := ih h
          cases token with
          | opening t =>
              obtain ⟨hvisited, hopen⟩ := visited_openedBy (o := o) p t (request o around p.visited p.openRanks t)
              rw [← openTag_ok hstep] at hvisited hopen
              refine ⟨(t, p.visited, p.openRanks) :: passed, ?_, ?_⟩
              · rw [hvisited, hopen, openAfter] at hplaces
                rw [List.cons_append, Token.marks]
                split
                next hempty =>
                  rw [if_pos hempty] at hplaces
                  exact congrArg ((t, p.visited, p.openRanks) :: ·) hplaces
                next hempty =>
                  rw [if_neg hempty] at hplaces
                  exact congrArg ((t, p.visited, p.openRanks) :: ·) hplaces
              · rw [List.length_cons]
                omega
          | closing raw =>
              cases hstep
              exact ⟨passed, hplaces, hlength⟩
          | other raw =>
              cases hstep
              exact ⟨passed, hplaces, hlength⟩

end

theorem places_eq_of_names {tokens : List Token} {nodes : List Node}
    (h : Token.names tokens = (Node.marks nodes).map (Mark.map Tag.written)) :
    (Mark.places 0 [] (Token.marks tokens)).map (fun place => (String.ofList place.1.name, place.2)) =
      (Numbered.list nodes).map fun e => (e.tag.written, e.rank, e.outer.reverse) := by
  rw [← Mark.places_map (fun t : StartTag => String.ofList t.name), ← Token.names, h, Mark.places_map,
    Numbered.places_list, List.map_map]
  rfl

/-- What a pass over the tokens has counted and holds open at a start tag, and what it looks up there, belongs to
one element of the document. -/
structure StandsFor (contents : Contents) (o : Options) (selector : Option Selector.Choice) (p : Progress) (t : StartTag)
    (e : Numbered) : Prop where
  element : (Numbered.list contents.tree)[p.visited]? = some e
  name : e.tag.written = String.ofList t.name
  ownName : contents.NamesOnce → e.tag.ownName = String.ofList t.name
  rank : e.rank = p.visited
  outer : e.outer = p.openRanks.reverse
  text : ∀ texts, (surroundings o selector contents).texts = some texts → texts[p.visited]? = some e.ownText
  seen : ∃ children, (Numbered.list contents.selectorTree)[p.visited]? = some { e with children }
  picked : ∀ choice, selector = some choice → ((surroundings o selector contents).picked.has p.visited = true ↔
    ∃ place ∈ Place.allOf contents.selectorTree, place.rank = some p.visited ∧ place.tag = e.tag ∧
      choice.meets (Selector.Scope.ofDocument true contents.selectorTree) place = true)

theorem places_opening (rank : Nat) (openRanks : List Nat) (t : StartTag) (tokens : List Token) :
    ∃ more, Mark.places rank openRanks (Token.marks (.opening t :: tokens)) = (t, rank, openRanks) :: more := by
  rw [Token.marks]
  split <;> exact ⟨_, rfl⟩

theorem standsFor {contents : Contents} {before after : List Token} {t : StartTag} {o : Options}
    {selector : Option Selector.Choice} {p : Progress}
    (hnames : Token.names (before ++ .opening t :: after) = (Node.marks contents.tree).map (Mark.map Tag.written))
    (hseen : Node.marks contents.selectorTree = Node.marks contents.tree)
    (hown : contents.NamesOnce → ∀ e ∈ Numbered.list contents.tree, e.tag.ownName = e.tag.written)
    (hrun : before.foldlM (Progress.step o (surroundings o selector contents)) {} = .ok p) :
    ∃ e, StandsFor contents o selector p t e := by
  obtain ⟨passed, hplaces, hlength⟩ := places_foldlM_step hrun (.opening t :: after)
  obtain ⟨more, hopening⟩ := places_opening p.visited p.openRanks t after
  have hvisited : passed.length = p.visited := (Nat.zero_add _).symm.trans hlength
  have hat : (Mark.places 0 [] (Token.marks (before ++ .opening t :: after)))[p.visited]? =
      some (t, p.visited, p.openRanks) := by
    rw [← hvisited]
    exact (congrArg (·[passed.length]?) (hplaces.trans (congrArg (passed ++ ·) hopening))).trans (by simp [hvisited])
  have hfound := congrArg (·[p.visited]?) (places_eq_of_names hnames)
  simp only [List.getElem?_map, hat, Option.map_some] at hfound
  obtain ⟨e, he, hsame⟩ := Option.map_eq_some_iff.mp hfound.symm
  simp only [Prod.mk.injEq] at hsame
  obtain ⟨hname, hrank, houter⟩ := hsame
  obtain ⟨e', he', hplace⟩ : ∃ e', (Numbered.list contents.selectorTree)[p.visited]? = some e' ∧ e'.place = e.place := by
    have hall := congrArg (·[p.visited]?) (congrArg (Mark.places 0 []) hseen)
    simp only [Numbered.places_list, List.getElem?_map, he, Option.map_some] at hall
    exact Option.map_eq_some_iff.mp hall
  simp only [Numbered.place, Prod.mk.injEq, List.reverse_inj] at hplace
  obtain ⟨htag, hrank', houter'⟩ := hplace
  refine ⟨e, he, hname, fun honce => (hown honce e (List.mem_of_getElem? he)).trans hname,
    hrank, by rw [← houter, List.reverse_reverse], ?_, ⟨e'.children, ?_⟩, ?_⟩
  · intro texts htexts
    simp only [surroundings] at htexts
    split at htexts
    · cases htexts
      rw [List.getElem?_map, he, Option.map_some]
    · cases htexts
  · rw [he', ← htag, ← hrank', ← houter']
  · rintro choice rfl
    have hmem := List.mem_of_getElem? he'
    simp only [surroundings, Option.map_some, Picked.has, List.contains_iff_mem, Selector.ranksIn, List.mem_filterMap,
      List.mem_filter]
    constructor
    · rintro ⟨place, ⟨hplace, hmeets⟩, hat⟩
      exact ⟨place, hplace, hat, (Place.tag_of_mem_allOf hplace hmem (by rw [hat, hrank', hrank])).trans htag, hmeets⟩
    · rintro ⟨place, hplace, hat, -, hmeets⟩
      exact ⟨place, ⟨hplace, hmeets⟩, hat⟩

theorem visited_foldlM_step {o : Options} {around : Surroundings} {tokens : List Token} {p : Progress}
    (h : tokens.foldlM (Progress.step o around) {} = .ok p) : p.visited = tokens.countP Token.isOpening := by
  obtain ⟨passed, hplaces, hlength⟩ := places_foldlM_step h []
  rw [List.append_nil] at hplaces
  rw [← Token.length_places tokens 0 [], show Mark.places 0 [] (Token.marks tokens) = _ from hplaces]
  simpa [Token.marks, Mark.places] using hlength.symm

/-- A document that is read has tokens from its beginning to its end, and its start tags stand for its elements one by
one: what is counted and looked up at a start tag belongs to its element in either tree, and a run with
a selector that can be read never fails. -/
theorem assign_agrees {source : List Char} {contents : Contents} (hfree : OghamFree source)
    (hread : read source = .ok contents) :
    ∃ tokens, Token.list source = (tokens, []) ∧
      (Numbered.list contents.tree).length = tokens.countP Token.isOpening ∧
      (Numbered.list contents.selectorTree).map Numbered.place = (Numbered.list contents.tree).map Numbered.place ∧
      ∀ o selector, o.readSelector .xml = .ok selector →
        (∃ out, (assign source o).result = .ok out) ∧
        ∀ before t after, tokens = before ++ .opening t :: after →
          ∃ p e, before.foldlM (Progress.step o (surroundings o selector contents)) {} = .ok p ∧
            p.visited = before.countP Token.isOpening ∧ StandsFor contents o selector p t e := by
  obtain ⟨tokens, htokens, hnames, hnested, hdeclares⟩ := exists_tokenizes_of_read hfree hread
  have htree := Contents.marks_tree hnested
  have hseen := Contents.marks_selectorTree hnested hdeclares
  have hcount := length_list_of_read hread ⟨tokens, htokens, rfl⟩
  refine ⟨tokens, htokens.list_eq, hcount, ?_, fun o selector hselector => ⟨?_, ?_⟩⟩
  · rw [← Numbered.places_list, ← Numbered.places_list, htree, hseen]
  · by_cases hblank : Text.allBlank source
    · exact ⟨source, by rw [assign, if_pos hblank]⟩
    · exact ⟨_, assign_eq_ok hblank hselector hread htokens⟩
  · rintro before t after rfl
    obtain ⟨p, hrun⟩ : ∃ p, before.foldlM (Progress.step o (surroundings o selector contents)) {} = .ok p := by
      refine exists_foldlM_step fun texts htexts => ?_
      rw [List.countP_append] at hcount
      simp only [surroundings] at htexts
      split at htexts
      · cases htexts
        rw [List.length_map, hcount]
        exact (Nat.zero_add _).trans_le (Nat.le_add_right _ _)
      · cases htexts
    have hown (honce : contents.NamesOnce) (e : Numbered) (he : e ∈ Numbered.list contents.tree) :
        e.tag.ownName = e.tag.written := by
      have hmark := Numbered.opening_mem_marks he
      rw [htree] at hmark
      exact ownName_of_read hread honce (Piece.opening_mem_marks hmark)
    obtain ⟨e, he⟩ := standsFor (by rw [hnames, htree]; rfl) (hseen.trans htree.symm) hown hrun
    exact ⟨p, e, hrun, visited_foldlM_step hrun, he⟩

theorem assign_agrees_inner :
    let source := "<l:a xmlns:l='u'>\u1680<!--<b>--><b c=\"\u1680>\"/></l:a>".toList
    let o : Options := { strategy := .slug, selector := some "l|a > b, b" }
    OghamFree source ∧ (read source).isOk = true ∧ (o.readSelector .xml).isOk = true ∧
      ∃ contents selector p e t, read source = .ok contents ∧ o.readSelector .xml = .ok selector ∧
        (∃ out, (assign source o).result = .ok out) ∧ (Numbered.list contents.tree).length = 2 ∧ t.name = ['b'] ∧
          StandsFor contents o selector p t e ∧ p.visited = 1 := by
  intro source o
  have hfree : OghamFree source := by
    refine .tag (by decide) (by decide) (by decide) (.pass (by decide) ?_)
    refine .aside .comment (s := "<b>--><b c=\"\u1680>\"/></l:a>".toList) ⟨"<b>".toList, rfl⟩ ?_
    exact .tag (by decide) (by decide) (by decide) (.tag (by decide) (by decide) (by decide) .done)
  have hisOk : (read source).isOk = true := by decide +kernel
  have hselectorOk : (o.readSelector .xml).isOk = true := by decide +kernel
  obtain ⟨contents, hread⟩ := exists_of_isOk hisOk
  obtain ⟨selector, hselector⟩ := exists_of_isOk hselectorOk
  obtain ⟨tokens, htokens, hcount, -, hruns⟩ := assign_agrees hfree hread
  obtain ⟨hout, hstands⟩ := hruns o selector hselector
  have hall : Token.list source =
      ([.opening ⟨['l', ':', 'a'], [⟨[' '], "xmlns:l".toList, ['='], '\'', ['u']⟩], ['>']⟩, .other ['\u1680'],
        .other "<!--<b>-->".toList, .opening ⟨['b'], [⟨[' '], ['c'], ['='], '"', ['\u1680', '>']⟩], ['/', '>']⟩,
        .closing "</l:a>".toList], []) := by decide +kernel
  obtain rfl := congrArg Prod.fst (htokens.symm.trans hall)
  obtain ⟨p, e, -, hvisited, he⟩ := hstands [_, _, _] _ [_] rfl
  exact ⟨hfree, hisOk, hselectorOk, contents, selector, p, e, _, hread, hselector, hout, hcount, rfl, he, hvisited⟩

/-- The ogham space mark parts the name that it stands in: no token is found, or one with another name. -/
theorem tokens_part_names :
    (read "<a\u1680b/>".toList).isOk = true ∧ Token.list "<a\u1680b/>".toList = ([], "<a\u1680b/>".toList) ∧
      (match (assign "<a\u1680b/>".toList { strategy := .path }).result with
        | .error (.unexpectedMarkup 1 1) => true
        | _ => false) = true ∧
      (read "<a\u1680/>".toList).toOption.map (fun c => (Numbered.list c.tree).map fun e => e.tag.written) =
        some ["a\u1680"] ∧
      (Token.list "<a\u1680/>".toList).1 = [.opening ⟨['a'], [], ['\u1680', '/', '>']⟩] := by
  refine ⟨?_, ?_, ?_, ?_, ?_⟩ <;> decide +kernel

end MarkupIds.Xml
