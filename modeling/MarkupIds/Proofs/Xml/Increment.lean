import MarkupIds.Proofs.Ident.Path
import MarkupIds.Proofs.Options.Names
import MarkupIds.Proofs.Xml.SecondRun

/-! Ids given name by name. Where ids are made of paths and those that are there are kept, a run for some
names and then one for others do what one run for all of them does, in whatever order. -/

namespace MarkupIds

namespace Options

/-- The options with other names included. -/
def including (o : Options) (names : List String) : Options := { o with included := names }

section

variable (o : Options) (names : List String)

@[simp] theorem including_attr : (o.including names).attr = o.attr := rfl

@[simp] theorem including_strategy : (o.including names).strategy = o.strategy := rfl

@[simp] theorem including_idPrefix : (o.including names).idPrefix = o.idPrefix := rfl

@[simp] theorem including_overwrite : (o.including names).overwrite = o.overwrite := rfl

@[simp] theorem including_selector : (o.including names).selector = o.selector := rfl

end

/-- Two lists of included names admit together what their union admits. -/
theorem admits_union (o : Options) {a b c : List String} (ha : a ≠ []) (hb : b ≠ [])
    (hc : ∀ name, name ∈ c ↔ name ∈ a ∨ name ∈ b) (name : String) (existing : Option (List Char)) :
    (o.including c).admits name existing = ((o.including a).admits name existing || (o.including b).admits name existing) := by
  have hne : c ≠ [] := by
    obtain ⟨n, rest, rfl⟩ := List.exists_cons_of_ne_nil ha
    exact List.ne_nil_of_mem ((hc n).mpr (.inl List.mem_cons_self))
  have hcontains : c.contains name = (a.contains name || b.contains name) := by
    rw [Bool.eq_iff_iff, Bool.or_eq_true, List.contains_iff_mem, List.contains_iff_mem, List.contains_iff_mem, hc]
  simp only [admits, including, List.isEmpty_eq_false_iff.mpr ha, List.isEmpty_eq_false_iff.mpr hb,
    List.isEmpty_eq_false_iff.mpr hne, hcontains, Bool.false_or, Bool.and_or_distrib_left, Bool.and_or_distrib_right]

end Options

namespace Xml

variable {o : Options} {around : Surroundings}

section Paths

/-- What asks for an id behind some start tags has a path that ends with a later rank. -/
theorem exists_path_of_mem_requests {tokens : List Token} {visited : Nat} {openRanks : List Nat} {element : Descriptor}
    (h : element ∈ (requests o around visited openRanks tokens).filterMap Prod.snd) :
    ∃ outer rank, visited ≤ rank ∧ element.path = (outer ++ [rank]).map Int.ofNat := by
  induction tokens generalizing visited openRanks with
  | nil => cases h
  | cons token tokens ih =>
      cases token with
      | opening t =>
          rw [requests, List.filterMap_cons] at h
          split at h
          next =>
            obtain ⟨outer, rank, hrank, hpath⟩ := ih h
            exact ⟨outer, rank, by omega, hpath⟩
          next first hfirst =>
            obtain rfl | h := List.mem_cons.mp h
            · obtain ⟨-, hsome⟩ := Option.ite_none_right_eq_some.mp (hfirst : request o around visited openRanks t = _)
              refine ⟨openRanks.reverse, visited, Nat.le_refl _, ?_⟩
              rw [← Option.some.inj hsome, List.reverse_cons]
            · obtain ⟨outer, rank, hrank, hpath⟩ := ih h
              exact ⟨outer, rank, by omega, hpath⟩
      | closing raw => exact ih h
      | other raw => exact ih h

theorem pairwise_endApart_requests (tokens : List Token) (visited : Nat) (openRanks : List Nat) :
    ((requests o around visited openRanks tokens).filterMap Prod.snd).Pairwise Generator.EndApart := by
  induction tokens generalizing visited openRanks with
  | nil => exact .nil
  | cons token tokens ih =>
      cases token with
      | opening t =>
          rw [requests, List.filterMap_cons]
          split
          next => exact ih _ _
          next first hfirst =>
            refine List.pairwise_cons.mpr ⟨fun other hother => ?_, ih _ _⟩
            obtain ⟨outer, rank, hrank, hpath⟩ := exists_path_of_mem_requests hother
            obtain ⟨-, hsome⟩ := Option.ite_none_right_eq_some.mp (hfirst : request o around visited openRanks t = _)
            refine ⟨openRanks.reverse, outer, visited, rank, ?_, hpath, by omega⟩
            rw [← Option.some.inj hsome, List.reverse_cons]
      | closing raw => exact ih _ _
      | other raw => exact ih _ _

/-- A start tag with the candidate of its path for an id, if it may get one. -/
def StartTag.withPath (o : Options) (rank : Nat) (openRanks : List Nat) (t : StartTag) : StartTag :=
  if o.admits (String.ofList t.name) (Progress.existing? o t) then
    let path := (rank :: openRanks).reverse.map Int.ofNat
    t.withId o.overwrite o.attr
      (Generator.pathCandidate (String.ofList t.name) path o.idPrefix).toList
  else t

/-- Tokens with the candidates of their paths for ids. -/
def withPaths (o : Options) (visited : Nat) (openRanks : List Nat) : List Token → List Token
  | [] => []
  | .opening t :: rest =>
    .opening (t.withPath o visited openRanks) :: withPaths o (visited + 1) (openAfter visited openRanks t) rest
  | .closing raw :: rest => .closing raw :: withPaths o visited (openRanks.drop 1) rest
  | .other raw :: rest => .other raw :: withPaths o visited openRanks rest

theorem withPaths_of_not_opening {tokens : List Token} (h : ∀ t, .opening t ∉ tokens) (visited : Nat)
    (openRanks : List Nat) : withPaths o visited openRanks tokens = tokens := by
  induction tokens generalizing visited openRanks with
  | nil => rfl
  | cons token tokens ih =>
      have hrest := ih fun t ht => h t (List.mem_cons_of_mem _ ht)
      cases token with
      | opening t => exact absurd List.mem_cons_self (h t)
      | closing raw => rw [withPaths, hrest]
      | other raw => rw [withPaths, hrest]

/-- Ids made of paths are the candidates, without a number behind them. -/
theorem rewritten_served (hstrategy : o.strategy = .path) (hpicked : around.picked = none) (tokens : List Token) :
    (served o around tokens).map (rewritten o) = withPaths o 0 [] tokens := by
  rw [served, Generator.serve_of_endApart hstrategy (pairwise_endApart_requests tokens 0 []), List.map_map]
  generalize 0 = visited
  generalize ([] : List Nat) = openRanks
  induction tokens generalizing visited openRanks with
  | nil => rfl
  | cons token tokens ih =>
      cases token with
      | opening t =>
          rw [requests, List.map_cons, ih, withPaths]
          refine congrArg (· :: _) ?_
          simp only [Function.comp, request, StartTag.withPath, hpicked, Picked.has, Bool.true_and]
          split
          next => simp only [Option.map_some, rewritten, Generator.candidate, hstrategy]
          next => rfl
      | closing raw => exact congrArg (Token.closing raw :: ·) (ih _ _)
      | other raw => exact congrArg (Token.other raw :: ·) (ih _ _)

end Paths

section Runs

/-- The document is blank or can be read. -/
def Readable (source : List Char) : Prop := Text.allBlank source ∨ ∃ contents, read source = .ok contents

theorem not_opening_of_allBlank {tokens : List Token} (h : Text.allBlank (tokens.flatMap Token.text)) (t : StartTag) :
    .opening t ∉ tokens := by
  intro ht
  have hbracket : '<' ∈ tokens.flatMap Token.text := List.mem_flatMap.mpr ⟨_, ht, List.mem_cons_self⟩
  exact absurd (List.all_eq_true.mp h _ hbracket) (by decide)

theorem assign_withPaths (hstrategy : o.strategy = .path) (hselector : o.selector = none) {source : List Char}
    {tokens : List Token} (htokens : Tokenizes source tokens) (hread : Readable source) :
    (assign source o).result = .ok ((withPaths o 0 [] tokens).flatMap Token.text) := by
  have hnone : o.readSelector .xml = .ok none := by rw [Options.readSelector, hselector]
  by_cases hblank : Text.allBlank source
  · rw [htokens.text_eq] at hblank
    rw [withPaths_of_not_opening (not_opening_of_allBlank hblank), ← htokens.text_eq, assign,
      if_pos (htokens.text_eq ▸ hblank)]
  · obtain ⟨contents, hcontents⟩ := hread.resolve_left hblank
    rw [assign_eq_ok hblank hnone hcontents htokens, rewritten_served hstrategy rfl]

theorem readable_of_ok {source out : List Char} (h : (assign source o).result = .ok out) : Readable source := by
  obtain ⟨hblank, -⟩ | ⟨-, selector, contents, visited, -, hread, -⟩ := assign_ok h
  · exact .inl hblank
  · exact .inr ⟨contents, hread⟩

theorem exists_tokenizes_of_ok {source out : List Char} (htype : Typeless source)
    (h : (assign source o).result = .ok out) : ∃ tokens, Tokenizes source tokens := by
  obtain ⟨hblank, -⟩ | ⟨-, selector, contents, visited, -, -, hrest, -⟩ := assign_ok h
  · exact exists_tokenizes_of_not_mem fun hmem => absurd (List.all_eq_true.mp hblank _ hmem) (by decide)
  · exact ⟨_, .of_list (Prod.ext rfl hrest) htype⟩

end Runs

section Stages

variable {a b c : List String}

theorem existing?_including (t : StartTag) : Progress.existing? (o.including a) t = Progress.existing? o t := rfl

/-- A start tag that one run or the other admits has the same path in a run for both. -/
theorem withPath_withPath (hkeep : o.overwrite = false) (ha : a ≠ []) (hb : b ≠ [])
    (hc : ∀ name, name ∈ c ↔ name ∈ a ∨ name ∈ b) (rank : Nat) (openRanks : List Nat) (t : StartTag) :
    (t.withPath (o.including a) rank openRanks).withPath (o.including b) rank openRanks =
      t.withPath (o.including c) rank openRanks := by
  have hunion := o.admits_union ha hb hc (String.ofList t.name) (Progress.existing? o t)
  cases hfirst : (o.including a).admits (String.ofList t.name) (Progress.existing? o t) with
  | true =>
      -- the id is there now, so the second run leaves it
      rw [hfirst, Bool.true_or] at hunion
      have hgiven (id : List Char) : (o.including b).admits (String.ofList t.name)
          (Progress.existing? o (t.withId o.overwrite o.attr id)) = false := by
        rw [Options.admits, Option.isNone_eq_false_iff.mpr
          (Option.isSome_iff_ne_none.mpr (existing?_withId_ne_none hkeep t id)), Options.including_overwrite, hkeep]
        rfl
      have hunder : t.withPath (o.including a) rank openRanks = t.withPath (o.including c) rank openRanks := by
        rw [StartTag.withPath, existing?_including, if_pos hfirst, StartTag.withPath, existing?_including, if_pos hunion]
        rfl
      rw [← hunder, StartTag.withPath, existing?_including, if_neg]
      rw [StartTag.withPath, existing?_including, if_pos hfirst]
      exact fun h => Bool.false_ne_true ((hgiven _).symm.trans h)
  | false =>
      rw [hfirst, Bool.false_or] at hunion
      have hsame : t.withPath (o.including a) rank openRanks = t :=
        if_neg fun h => Bool.false_ne_true (hfirst.symm.trans h)
      rw [hsame, StartTag.withPath, StartTag.withPath, existing?_including, existing?_including, hunion]
      rfl

theorem openAfter_withPath (rank : Nat) (openRanks outer : List Nat) (t : StartTag) :
    openAfter rank openRanks (t.withPath o rank outer) = openAfter rank openRanks t := by
  rw [StartTag.withPath]
  split <;> rfl

theorem withPaths_withPaths (hkeep : o.overwrite = false) (ha : a ≠ []) (hb : b ≠ [])
    (hc : ∀ name, name ∈ c ↔ name ∈ a ∨ name ∈ b) (tokens : List Token) (visited : Nat) (openRanks : List Nat) :
    withPaths (o.including b) visited openRanks (withPaths (o.including a) visited openRanks tokens) =
      withPaths (o.including c) visited openRanks tokens := by
  induction tokens generalizing visited openRanks with
  | nil => rfl
  | cons token tokens ih =>
      cases token with
      | opening t => simp only [withPaths, openAfter_withPath, withPath_withPath hkeep ha hb hc, ih]
      | closing raw => exact congrArg (Token.closing raw :: ·) (ih _ _)
      | other raw => exact congrArg (Token.other raw :: ·) (ih _ _)

/-- After two runs, the tokens have the ids that one run gives them. -/
theorem assign_assign (hstrategy : o.strategy = .path) (hkeep : o.overwrite = false) (hselector : o.selector = none)
    (ha : a ≠ []) (hb : b ≠ []) (hc : ∀ name, name ∈ c ↔ name ∈ a ∨ name ∈ b) {source between out : List Char}
    {tokens : List Token} (htokens : Tokenizes source tokens)
    (hfirst : (assign source (o.including a)).result = .ok between)
    (hsecond : (assign between (o.including b)).result = .ok out) :
    out = (withPaths (o.including c) 0 [] tokens).flatMap Token.text := by
  have hbetween := assign_withPaths (o := o.including a) hstrategy hselector htokens (readable_of_ok hfirst)
  obtain rfl := Except.ok.inj (hfirst.symm.trans hbetween)
  have hnew : Tokenizes ((withPaths (o.including a) 0 [] tokens).flatMap Token.text)
      (withPaths (o.including a) 0 [] tokens) := by
    have hserved := htokens.served (o.including a) {}
    rwa [rewritten_served (o := o.including a) hstrategy rfl] at hserved
  have hout := assign_withPaths (o := o.including b) hstrategy hselector hnew (readable_of_ok hsecond)
  rw [withPaths_withPaths hkeep ha hb hc] at hout
  exact Except.ok.inj (hsecond.symm.trans hout)

/-- Ids given for some names and then for others are those that are given for all of them at once, and those that
are given for the others first. -/
theorem assign_in_stages (hstrategy : o.strategy = .path) (hkeep : o.overwrite = false) (hselector : o.selector = none)
    (ha : a ≠ []) (hb : b ≠ []) {source between out : List Char} (htype : Typeless source)
    (hfirst : (assign source (o.including a)).result = .ok between)
    (hsecond : (assign between (o.including b)).result = .ok out) :
    (assign source (o.including (nameSet (a ++ b)))).result = .ok out ∧
      ∃ other, (assign source (o.including b)).result = .ok other ∧
        ∀ out', (assign other (o.including a)).result = .ok out' → out' = out := by
  have hunion (name : String) : name ∈ nameSet (a ++ b) ↔ name ∈ a ∨ name ∈ b := by
    rw [mem_nameSet, List.mem_append]
  have hread := readable_of_ok hfirst
  obtain ⟨tokens, htokens⟩ := exists_tokenizes_of_ok htype hfirst
  have hout := assign_assign hstrategy hkeep hselector ha hb hunion htokens hfirst hsecond
  have hother := assign_withPaths (o := o.including b) hstrategy hselector htokens hread
  refine ⟨?_, _, hother, fun out' hlast => ?_⟩
  · rw [hout]
    exact assign_withPaths (o := o.including (nameSet (a ++ b))) hstrategy hselector htokens hread
  · have hswapped (name : String) : name ∈ nameSet (a ++ b) ↔ name ∈ b ∨ name ∈ a := (hunion name).trans or_comm
    rw [hout]
    exact assign_assign hstrategy hkeep hselector hb ha hswapped htokens hother hlast

theorem assign_in_stages_inner :
    let o : Options := { strategy := .path }
    let source := "<ul><li>a</li><b/><li data-ast-id='x'/></ul>".toList
    let between := "<ul><li data-ast-id=\"el-li-0-1\">a</li><b/><li data-ast-id='x'/></ul>".toList
    let out := "<ul><li data-ast-id=\"el-li-0-1\">a</li><b data-ast-id=\"el-b-0-2\"/><li data-ast-id='x'/></ul>".toList
    o.strategy = .path ∧ o.overwrite = false ∧ o.selector = none ∧ ["li"] ≠ [] ∧ ["b", "li"] ≠ [] ∧ Typeless source ∧
      (assign source (o.including ["li"])).result = .ok between ∧
      (assign between (o.including ["b", "li"])).result = .ok out ∧
      (assign source (o.including (nameSet (["li"] ++ ["b", "li"])))).result = .ok out ∧
      ∃ other, (assign source (o.including ["b", "li"])).result = .ok other ∧
        ∀ out', (assign other (o.including ["li"])).result = .ok out' → out' = out := by
  intro o source between out
  have htype : Typeless source := by
    unfold Typeless
    decide +kernel
  have hfirst : (assign source (o.including ["li"])).result = .ok between :=
    Outcome.result_eq_ok_iff.mpr (by decide +kernel)
  have hsecond : (assign between (o.including ["b", "li"])).result = .ok out :=
    Outcome.result_eq_ok_iff.mpr (by decide +kernel)
  exact ⟨rfl, rfl, rfl, by decide, by decide, htype, hfirst, hsecond,
    assign_in_stages rfl rfl rfl (by decide) (by decide) htype hfirst hsecond⟩

end Stages

end Xml

end MarkupIds
