import MarkupIds.Proofs.Ident.Ledger
import MarkupIds.Proofs.Splice
import MarkupIds.Proofs.Xml.Token
import MarkupIds.Xml.Assign

/-! What a run makes of the elements of an XML document. The pass over the tokens is the same as
giving ids to the start tags that ask for one and writing these anew: the result is the document with
one edit for each of them. -/

namespace MarkupIds.Xml

open MarkupIds.Markup (Numbered)

/-- What a start tag asks of the generator, if its element may get an id. The path is read from the
inside out, and its first rank is the element's own. -/
def request (o : Options) (around : Surroundings) (rank : Nat) (openRanks : List Nat) (t : StartTag) :
    Option Descriptor :=
  if around.picked.has rank && o.admits (String.ofList t.name) (Progress.existing? o t) then
    some { name := String.ofList t.name
           path := (rank :: openRanks).reverse.map Int.ofNat
           text := around.texts.bind (·[rank]?) }
  else none

/-- The open elements behind a start tag. -/
def openAfter (rank : Nat) (openRanks : List Nat) (t : StartTag) : List Nat :=
  if t.isEmptyElement then openRanks else rank :: openRanks

/-- The tokens with what they ask of the generator. `visited` start tags came before, and the elements
of `openRanks` are open. -/
def requests (o : Options) (around : Surroundings) (visited : Nat) (openRanks : List Nat) :
    List Token → List (Token × Option Descriptor)
  | [] => []
  | .opening t :: rest =>
    (.opening t, request o around visited openRanks t) ::
      requests o around (visited + 1) (openAfter visited openRanks t) rest
  | .closing raw :: rest => (.closing raw, none) :: requests o around visited (openRanks.drop 1) rest
  | .other raw :: rest => (.other raw, none) :: requests o around visited openRanks rest

/-- The tokens with the ids that they get. -/
def served (o : Options) (around : Surroundings) (tokens : List Token) :
    List (Token × Option String) :=
  Generator.serve o [] (requests o around 0 [] tokens)

/-- A token as it is written after the run. -/
def rewritten (o : Options) : Token × Option String → Token
  | (.opening t, some id) => .opening (t.withId o.overwrite o.attr id.toList)
  | (token, _) => token

/-- The edits that write ids into the start tags among some tokens, of which the first starts at `offset`. -/
def editsFrom (o : Options) (offset : Nat) : List (Token × Option String) → List Edit
  | [] => []
  | (.opening t, some id) :: rest =>
    ⟨offset, offset + t.text.length, (t.withId o.overwrite o.attr id.toList).text⟩ ::
      editsFrom o (offset + t.text.length) rest
  | (token, _) :: rest => editsFrom o (offset + token.text.length) rest

/-- What is known of the elements of a document, for a selector and what was read of the document. -/
def surroundings (o : Options) (selector : Option Selector.Choice) (contents : Contents) :
    Surroundings where
  picked := selector.map fun choice => Selector.ranksIn choice true contents.selectorTree
  texts := if o.strategy == .slug then some ((Numbered.list contents.tree).map Numbered.ownText)
    else none

theorem map_fst_served (o : Options) (around : Surroundings) (tokens : List Token) :
    (served o around tokens).map Prod.fst = tokens := by
  rw [served, Generator.map_fst_serve]
  suffices ∀ visited openRanks,
      (requests o around visited openRanks tokens).map Prod.fst = tokens from this 0 []
  induction tokens with
  | nil => intros; rfl
  | cons token tokens ih => intros; cases token <;> simp only [requests, List.map_cons, ih]

/-- Only start tags ask for an id. -/
theorem exists_opening_of_mem_requests {o : Options} {around : Surroundings} {tokens : List Token}
    {visited : Nat} {openRanks : List Nat} {token : Token} {element : Descriptor}
    (h : (token, some element) ∈ requests o around visited openRanks tokens) :
    ∃ t, token = .opening t := by
  induction tokens generalizing visited openRanks with
  | nil => cases h
  | cons first tokens ih =>
      cases first with
      | opening t =>
          obtain h | h := List.mem_cons.mp h
          · exact ⟨t, congrArg Prod.fst h⟩
          · exact ih h
      | closing raw =>
          obtain h | h := List.mem_cons.mp h
          · cases h
          · exact ih h
      | other raw =>
          obtain h | h := List.mem_cons.mp h
          · cases h
          · exact ih h

/-- Ids are given to start tags only. -/
def GivenToOpenings (entries : List (Token × Option String)) : Prop :=
  ∀ token id, (token, some id) ∈ entries → ∃ t, token = .opening t

theorem givenToOpenings_served (o : Options) (around : Surroundings) (tokens : List Token) :
    GivenToOpenings (served o around tokens) := by
  intro token id h
  obtain ⟨element, helement, -⟩ := Generator.of_mem_serve h
  exact exists_opening_of_mem_requests helement

theorem GivenToOpenings.of_cons {entry : Token × Option String} {entries : List (Token × Option String)}
    (h : GivenToOpenings (entry :: entries)) : GivenToOpenings entries :=
  fun token id hmem => h token id (List.mem_cons_of_mem _ hmem)

section Pass

variable {o : Options} {around : Surroundings}

/-- The progress after a start tag that asks for nothing, or for an id. -/
def openedBy (o : Options) (p : Progress) (t : StartTag) : Option Descriptor → Progress
  | none =>
    { p with visited := p.visited + 1, openRanks := openAfter p.visited p.openRanks t
             output := .opening t :: p.output }
  | some element =>
    let id := Generator.firstFree p.generator.used (Generator.candidate element o)
    { generator := { p.generator with used := id :: p.generator.used }
      visited := p.visited + 1
      assigned := p.assigned + 1
      openRanks := openAfter p.visited p.openRanks t
      output := .opening (t.withId o.overwrite o.attr id.toList) :: p.output }

theorem openTag_ok {p q : Progress} {t : StartTag} (h : p.openTag o around t = .ok q) :
    q = openedBy o p t (request o around p.visited p.openRanks t) := by
  simp only [Progress.openTag] at h
  by_cases hpicked : around.picked.has p.visited
  · rw [if_pos hpicked] at h
    by_cases hadmits : o.admits (String.ofList t.name) (Progress.existing? o t)
    · have hboth : around.picked.has p.visited &&
          o.admits (String.ofList t.name) (Progress.existing? o t) := by rw [hpicked, hadmits]; rfl
      rw [request, if_pos hboth]
      simp only [if_pos hadmits] at h
      cases htexts : around.texts with
      | none =>
          simp only [htexts, Option.map_none] at h
          cases h
          rfl
      | some texts =>
          simp only [htexts, Option.map_some] at h
          cases htext : texts[p.visited]? with
          | none =>
              simp only [htext] at h
              cases h
          | some text =>
              simp only [htext] at h
              cases h
              have hbind : (some texts).bind (·[p.visited]?) = some text := htext
              rw [hbind]
              rfl
    · have hboth : ¬ (around.picked.has p.visited &&
          o.admits (String.ofList t.name) (Progress.existing? o t)) := by simp [hadmits]
      rw [request, if_neg hboth]
      simp only [if_neg hadmits] at h
      split at h
      · cases h
      · cases h
        rfl
  · have hboth : ¬ (around.picked.has p.visited &&
        o.admits (String.ofList t.name) (Progress.existing? o t)) := by simp [hpicked]
    rw [if_neg hpicked] at h
    cases h
    rw [request, if_neg hboth]
    rfl

theorem foldlM_step {tokens : List Token} {p q : Progress}
    (h : tokens.foldlM (Progress.step o around) p = .ok q) :
    let entries := Generator.serve o p.generator.used (requests o around p.visited p.openRanks tokens)
    q.output = (entries.map (rewritten o)).reverse ++ p.output ∧
      q.assigned = p.assigned + (Generator.provided entries).length := by
  induction tokens generalizing p with
  | nil =>
      cases h
      exact ⟨rfl, rfl⟩
  | cons token tokens ih =>
      rw [List.foldlM_cons] at h
      cases token with
      | opening t =>
          cases hstep : p.openTag o around t with
          | error failure => simp only [Progress.step, hstep] at h; cases h
          | ok p' =>
              simp only [Progress.step, hstep] at h
              have hp := openTag_ok hstep
              obtain ⟨houtput, hassigned⟩ := ih h
              cases hr : request o around p.visited p.openRanks t with
              | none =>
                  rw [hr] at hp
                  subst hp
                  simp only [requests, hr, Generator.serve, List.map_cons, List.reverse_cons,
                    List.append_assoc, List.singleton_append, Generator.provided_cons_none]
                  exact ⟨houtput, hassigned⟩
              | some element =>
                  rw [hr] at hp
                  subst hp
                  simp only [requests, hr, Generator.serve, List.map_cons, List.reverse_cons,
                    List.append_assoc, List.singleton_append, Generator.provided_cons_some,
                    List.length_cons]
                  refine ⟨houtput, hassigned.trans ?_⟩
                  simp only [openedBy]
                  omega
      | closing raw =>
          obtain ⟨houtput, hassigned⟩ := ih h
          simp only [requests, Generator.serve, List.map_cons, List.reverse_cons, List.append_assoc,
            List.singleton_append, Generator.provided_cons_none]
          exact ⟨houtput, hassigned⟩
      | other raw =>
          obtain ⟨houtput, hassigned⟩ := ih h
          simp only [requests, Generator.serve, List.map_cons, List.reverse_cons, List.append_assoc,
            List.singleton_append, Generator.provided_cons_none]
          exact ⟨houtput, hassigned⟩

theorem assignTokens_ok {source : List Char} {p : Progress} (h : assignTokens source o around = .ok p) :
    (Token.list source).2 = [] ∧
      (Token.list source).1.foldlM (Progress.step o around) {} = .ok p := by
  unfold assignTokens at h
  cases hfold : (Token.list source).1.foldlM (Progress.step o around) {} with
  | error failure =>
      simp only [hfold] at h
      cases h
  | ok p' =>
      simp only [hfold] at h
      by_cases hrest : (Token.list source).2.isEmpty
      · rw [if_pos hrest] at h
        cases h
        exact ⟨List.isEmpty_iff.mp hrest, rfl⟩
      · rw [if_neg hrest] at h
        cases h

end Pass

section Edits

variable (o : Options)

theorem start_mem_editsFrom {entries : List (Token × Option String)} {offset : Nat} {e : Edit}
    (h : e ∈ editsFrom o offset entries) : offset ≤ e.start := by
  induction entries generalizing offset with
  | nil => cases h
  | cons entry entries ih =>
      obtain ⟨token, given⟩ := entry
      cases token with
      | opening t =>
          cases given with
          | none => exact Nat.le_trans (Nat.le_add_right _ _) (ih h)
          | some id =>
              rcases List.mem_cons.mp h with rfl | h
              · exact Nat.le_refl _
              · exact Nat.le_trans (Nat.le_add_right _ _) (ih h)
      | closing raw => exact Nat.le_trans (Nat.le_add_right _ _) (ih h)
      | other raw => exact Nat.le_trans (Nat.le_add_right _ _) (ih h)

theorem pairwise_editsFrom (offset : Nat) (entries : List (Token × Option String)) :
    (editsFrom o offset entries).Pairwise fun a b => Edit.le a b := by
  induction entries generalizing offset with
  | nil => exact .nil
  | cons entry entries ih =>
      obtain ⟨token, given⟩ := entry
      cases token with
      | opening t =>
          cases given with
          | none => exact ih _
          | some id =>
              refine List.pairwise_cons.mpr ⟨?_, ih _⟩
              intro e he
              have hstart := start_mem_editsFrom o he
              have hlength : 0 < t.text.length := Nat.zero_lt_succ _
              have hlt : offset < e.start := by omega
              simp [Edit.le, hlt]
      | closing raw => exact ih _
      | other raw => exact ih _

/-- `entries`, written anew behind any text, are that text with the edits for them. -/
def SplicesTo (cursor : Nat) (entries : List (Token × Option String)) (rest : List Char) : Prop :=
  ∀ before : List Char,
    Edit.spliceFrom cursor (before ++ (entries.flatMap (·.1.text) ++ rest))
      (editsFrom o (cursor + before.length) entries) =
      .ok (before ++ (entries.flatMap (fun e => (rewritten o e).text) ++ rest))

/-- A token without an edit only moves the edits behind it. -/
theorem SplicesTo.cons {cursor : Nat} {entries : List (Token × Option String)} {rest : List Char}
    {token : Token} {given : Option String} (hkeep : rewritten o (token, given) = token)
    (hedits : ∀ offset, editsFrom o offset ((token, given) :: entries) =
      editsFrom o (offset + token.text.length) entries)
    (h : SplicesTo o cursor entries rest) : SplicesTo o cursor ((token, given) :: entries) rest := by
  intro before
  have hbehind := h (before ++ token.text)
  rw [hedits]
  simpa only [List.flatMap_cons, hkeep, List.append_assoc, List.length_append,
    Nat.add_assoc] using hbehind

/-- Writing the tokens anew is making the edits. -/
theorem spliceFrom_editsFrom (cursor : Nat) (entries : List (Token × Option String))
    (rest : List Char) : SplicesTo o cursor entries rest := by
  induction entries generalizing cursor with
  | nil =>
      intro before
      rfl
  | cons entry entries ih =>
      obtain ⟨token, given⟩ := entry
      cases token with
      | closing raw => exact (ih cursor).cons o rfl fun _ => rfl
      | other raw => exact (ih cursor).cons o rfl fun _ => rfl
      | opening t =>
          cases given with
          | none => exact (ih cursor).cons o rfl fun _ => rfl
          | some id =>
              intro before
              have hrest := ih (cursor + before.length + t.text.length) []
              rw [List.length_nil, Nat.add_zero, List.nil_append] at hrest
              have hcursor : ¬ cursor + before.length < cursor := by omega
              have hstart : cursor + before.length - cursor = before.length := by omega
              have hstop : cursor + before.length + t.text.length - cursor =
                  before.length + t.text.length := by omega
              have hdrop : (before ++ ((t.text ++ entries.flatMap (·.1.text)) ++ rest)).drop
                  (before.length + t.text.length) = entries.flatMap (·.1.text) ++ rest := by
                rw [List.drop_length_add_append, List.append_assoc]
                exact List.drop_left
              have hold : (Token.opening t).text = t.text := rfl
              have hnew : (rewritten o (.opening t, some id)).text =
                  (t.withId o.overwrite o.attr id.toList).text := rfl
              simp only [editsFrom, List.flatMap_cons, Edit.spliceFrom,
                hold, hnew]
              rw [if_neg hcursor, hstart, hstop, hdrop, hrest, List.take_left]
              simp only [List.append_assoc, List.nil_append]

/-- The pass over the tokens of a document makes these edits. -/
theorem splice_editsFrom (entries : List (Token × Option String)) (rest : List Char) :
    Edit.splice (entries.flatMap (·.1.text) ++ rest) (editsFrom o 0 entries) =
      .ok (entries.flatMap (fun e => (rewritten o e).text) ++ rest) := by
  rw [Edit.splice, Edit.inOrder_of_pairwise (pairwise_editsFrom o 0 entries)]
  exact spliceFrom_editsFrom o 0 entries rest []

end Edits

/-- A document that gets its ids: it stays as it is where it is blank, and else it is the document with
the edits for the start tags that get ids. -/
theorem assign_ok {source out : List Char} {o : Options} (h : (assign source o).result = .ok out) :
    (Text.allBlank source ∧ out = source ∧ (assign source o).events = []) ∨
      ¬ Text.allBlank source ∧ ∃ selector contents visited,
        o.readSelector .xml = .ok selector ∧ read source = .ok contents ∧
        let entries := served o (surroundings o selector contents) (Token.list source).1
        (Token.list source).2 = [] ∧
        Edit.splice source (editsFrom o 0 entries) = .ok out ∧
        (assign source o).events =
          [o.assignedEvent .xml visited (Generator.provided entries).length] := by
  unfold assign at h ⊢
  by_cases hblank : Text.allBlank source
  · rw [if_pos hblank] at h ⊢
    cases h
    exact .inl ⟨hblank, rfl, rfl⟩
  · rw [if_neg hblank] at h ⊢
    refine .inr ⟨hblank, ?_⟩
    cases hs : o.readSelector .xml with
    | error failure =>
        simp only [hs] at h
        cases h
    | ok selector =>
        cases hr : read source with
        | error problem =>
            simp only [hs, hr] at h
            cases h
        | ok contents =>
            simp only [hs, hr] at h ⊢
            cases ha : assignTokens source o (surroundings o selector contents) with
            | error failure =>
                simp only [surroundings] at ha
                simp only [ha] at h
                cases h
            | ok p =>
                have ha' := ha
                simp only [surroundings] at ha
                simp only [ha] at h ⊢
                cases h
                obtain ⟨hrest, hfold⟩ := assignTokens_ok ha'
                obtain ⟨houtput, hassigned⟩ := foldlM_step hfold
                refine ⟨selector, contents, p.visited, rfl, rfl, hrest, ?_, ?_⟩
                · have htokens := map_fst_served o (surroundings o selector contents)
                    (Token.list source).1
                  have hsource : source = (served o (surroundings o selector contents)
                      (Token.list source).1).flatMap (·.1.text) ++ [] := by
                    rw [← List.flatMap_map, htokens, ← hrest]
                    exact Token.list_eq source
                  have htext : p.text = (served o (surroundings o selector contents)
                      (Token.list source).1).flatMap (fun e => (rewritten o e).text) ++ [] := by
                    rw [Progress.text, houtput, List.append_nil, List.append_nil,
                      List.reverse_reverse, List.flatMap_map]
                    rfl
                  have hsplice := splice_editsFrom o (served o (surroundings o selector contents)
                    (Token.list source).1) []
                  rw [← hsource, ← htext] at hsplice
                  exact hsplice
                · rw [hassigned, Nat.zero_add]
                  rfl

end MarkupIds.Xml
