import MarkupIds.Proofs.Options.Entries
import MarkupIds.Proofs.Options.Names

/-! Options that are given again as their own fields, and the forms in which a field may be given. -/

namespace MarkupIds.Options

variable {entries entries' : List (Value × Value)} {o : Options}

section Again

/-- The fields of options, with the names of its sets in some order. -/
def fieldsOf (o : Options) (included excluded : List String) : List (Value × Value) :=
  [(.text "attr", .text o.attrName), (.text "strategy", .text o.strategy.name), (.text "prefix", .text o.idPrefix),
   (.text "overwrite", .flag o.overwrite), (.text "selector", (o.selector.map Value.text).getD .null),
   (.text "include", .list (included.map .text)), (.text "exclude", .list (excluded.map .text))]

/-- The options without a selector that is nothing but white space. -/
def withoutBlankSelector (o : Options) : Options :=
  { o with selector := o.selector.filter fun s => !Text.allBlank s.toList }

theorem withoutBlankSelector_eq_self_iff : o.withoutBlankSelector = o ↔
    ∀ s, o.selector = some s → Text.allBlank s.toList = false := by
  have hselector : o.withoutBlankSelector = o ↔ o.withoutBlankSelector.selector = o.selector :=
    ⟨congrArg selector, fun h => by
      obtain ⟨attr, strategy, idPrefix, overwrite, selector, included, excluded, hplain⟩ := o
      simpa [withoutBlankSelector] using h⟩
  rw [hselector, withoutBlankSelector]
  cases o.selector with
  | none => simp
  | some s => simp [Option.filter]

theorem attrOf_attrName (o : Options) : attrOf (.text o.attrName) = .ok ⟨o.attr, o.attr_plain⟩ := by
  have htext : o.attrName.toList = o.attr := String.toList_ofList
  simp only [attrOf, textOf, htext, o.attr_plain, dite_true]

theorem strategyOf_name (strategy : Strategy) : strategyOf (.text strategy.name) = .ok strategy := by
  cases strategy <;> rfl

theorem selectorOf_selector (selector : Option String) : selectorOf ((selector.map Value.text).getD .null) =
    .ok (selector.filter fun s => !Text.allBlank s.toList) := by
  cases selector with
  | none => rfl
  | some s => cases hblank : Text.allBlank s.toList <;> simp [selectorOf, Option.filter, hblank]

/-- What is read as a selector is blank only where it is given as bytes. -/
theorem selectorOf_blank_iff {v : Value} {s : String} (h : selectorOf v = .ok (some s)) :
    Text.allBlank s.toList = true ↔ ∃ b t, v = .bytes b ∧ Text.decode b = .ok t ∧ Text.allBlank t = true := by
  cases v with
  | text t =>
      rw [selectorOf] at h
      split at h
      next => cases h
      next hblank =>
        cases h
        simp [hblank]
  | bytes b =>
      cases hread : Text.decode b with
      | error fault => simp [selectorOf, textOf, hread, Except.map] at h
      | ok t =>
          obtain rfl : String.ofList t = s := by simpa [selectorOf, textOf, hread, Except.map] using h
          rw [String.toList_ofList]
          exact ⟨fun hblank => ⟨b, t, rfl, hread, hblank⟩, by
            rintro ⟨_, _, ⟨⟩, hread', hblank⟩
            rwa [Except.ok.inj (hread.symm.trans hread')]⟩
  | _ => cases h

/-- A selector of nothing but white space is given, as bytes. -/
def GivesBlankBytes (entries : List (Value × Value)) : Prop :=
  ∃ b t, Value.entry? entries "selector" = some (.bytes b) ∧ Text.decode b = .ok t ∧ Text.allBlank t = true

theorem selector_blank_iff (h : ofEntries entries = .ok o) :
    (∀ s, o.selector = some s → Text.allBlank s.toList = false) ↔ ¬ GivesBlankBytes entries := by
  obtain ⟨-, -, -, -, hselector, -⟩ := ofEntries_eq_ok_iff.mp h
  obtain ⟨hnone, hdefault⟩ | ⟨v, hsome, hread⟩ := field_eq_ok_iff.mp hselector
  · have hgiven : ¬ GivesBlankBytes entries := by
      rintro ⟨b, t, hbytes, -⟩
      rw [hnone] at hbytes
      cases hbytes
    rw [← hdefault]
    simp [hgiven]
  · have hgiven : GivesBlankBytes entries ↔
        ∃ b t, v = .bytes b ∧ Text.decode b = .ok t ∧ Text.allBlank t = true := by
      simp only [GivesBlankBytes, hsome, Option.some.injEq]
    rw [hgiven]
    cases hfound : o.selector with
    | none =>
        rw [hfound] at hread
        refine iff_of_true (fun s hs => by cases hs) ?_
        rintro ⟨b, t, rfl, ht, -⟩
        simp [selectorOf, textOf, ht, Except.map] at hread
    | some s =>
        rw [hfound] at hread
        rw [← selectorOf_blank_iff hread]
        simp

/-- The names of a field are a set, given or not. -/
theorem names_of_field {name : String} {set : List String} (h : field entries name [] namesOf = .ok set) :
    set.Pairwise (· < ·) ∧ ∀ name ∈ set, IsTrimmed name := by
  obtain ⟨-, rfl⟩ | ⟨v, -, hread⟩ := field_eq_ok_iff.mp h
  · exact ⟨.nil, List.forall_mem_nil _⟩
  · exact namesOf_eq_ok hread

/-- The fields of options are options again, the same ones but for a blank selector. -/
theorem ofEntries_fieldsOf (h : ofEntries entries = .ok o) {included excluded : List String}
    (hincluded : included.Perm o.included) (hexcluded : excluded.Perm o.excluded) :
    ofEntries (fieldsOf o included excluded) = .ok o.withoutBlankSelector := by
  obtain ⟨-, -, -, -, -, hin, hex, -⟩ := ofEntries_eq_ok_iff.mp h
  obtain ⟨hinset, hintrimmed⟩ := names_of_field hin
  obtain ⟨hexset, hextrimmed⟩ := names_of_field hex
  refine ofEntries_eq_ok_iff.mpr ⟨field_eq_ok_iff.mpr (.inr ⟨_, rfl, attrOf_attrName o⟩),
    field_eq_ok_iff.mpr (.inr ⟨_, rfl, strategyOf_name o.strategy⟩), field_eq_ok_iff.mpr (.inr ⟨_, rfl, rfl⟩),
    field_eq_ok_iff.mpr (.inr ⟨_, rfl, rfl⟩), field_eq_ok_iff.mpr (.inr ⟨_, rfl, selectorOf_selector o.selector⟩),
    field_eq_ok_iff.mpr (.inr ⟨_, rfl, namesOf_of_perm hincluded hinset hintrimmed⟩),
    field_eq_ok_iff.mpr (.inr ⟨_, rfl, namesOf_of_perm hexcluded hexset hextrimmed⟩), ?_⟩
  simp only [fieldsOf, List.forall_mem_cons]
  exact ⟨⟨_, by decide, rfl⟩, ⟨_, by decide, rfl⟩, ⟨_, by decide, rfl⟩, ⟨_, by decide, rfl⟩, ⟨_, by decide, rfl⟩,
    ⟨_, by decide, rfl⟩, ⟨_, by decide, rfl⟩, List.forall_mem_nil _⟩

end Again

section Forms

variable {α : Type} {default : α} {read : Value → Except Fault α} {name field : String} {v v' : Value}
  {before after : List (Value × Value)}

/-- A field is read alike where two values of an entry are read alike. -/
theorem field_congr (h : name = field → read v = read v') :
    Options.field (before ++ (.text field, v) :: after) name default read =
      Options.field (before ++ (.text field, v') :: after) name default read := by
  unfold Options.field
  rw [Value.entry?_append, Value.entry?_append, Value.entry?_cons, Value.entry?_cons]
  cases Value.entry? before name with
  | some w => rfl
  | none =>
      by_cases hname : name = field
      · subst hname
        rw [if_pos (Value.sameKey_text.mpr rfl), if_pos (Value.sameKey_text.mpr rfl)]
        simp only [h rfl]
      · have hother : ¬ (Value.text field).sameKey (.text name) = true := fun hsame =>
          hname (Value.text.inj (Value.sameKey_text.mp hsame)).symm
        rw [if_neg hother, if_neg hother]

/-- Two values that stand for the same set of names make up the same options, or the same issues. -/
theorem ofEntries_congr (hfield : field = "include" ∨ field = "exclude") (h : namesOf v = namesOf v') :
    ofEntries (before ++ (.text field, v) :: after) = ofEntries (before ++ (.text field, v') :: after) := by
  have hextras : (before ++ (.text field, v) :: after).filterMap (fun e => extraIssue e.1) =
      (before ++ (.text field, v') :: after).filterMap fun e => extraIssue e.1 := by
    rw [List.filterMap_append, List.filterMap_append, List.filterMap_cons, List.filterMap_cons]
  have hother {β : Type} {name : String} {default : β} {read : Value → Except Fault β}
      (hname : name ≠ "include" ∧ name ≠ "exclude") :
      Options.field (before ++ (.text field, v) :: after) name default read =
        Options.field (before ++ (.text field, v') :: after) name default read :=
    field_congr fun heq => by
      subst heq
      exact absurd hfield (not_or.mpr hname)
  unfold ofEntries
  dsimp only
  rw [hextras, hother (by decide), hother (by decide), hother (by decide), hother (by decide), hother (by decide),
    field_congr fun _ => h, field_congr fun _ => h]

end Forms

section Overrides

variable {overrides : List (Value × Value)}

theorem load_eq_ok_iff {file : OptionsFile} : load (some file) overrides = .ok o ↔
    ∃ entries, entriesOf file = .ok entries ∧ ofEntries (replaced entries overrides) = .ok o := by
  unfold load
  dsimp only
  cases entriesOf file with
  | error fault => simp [bind, Except.bind]
  | ok entries =>
      simp only [bind, Except.bind, Except.ok.injEq, exists_eq_left']
      cases ofEntries (replaced entries overrides) with
      | ok options => simp [pure, Except.pure]
      | error issues => cases issues <;> simp

/-- Entries that differ only where they are replaced make up the same options. -/
theorem ofEntries_replaced_iff (h : (entries.filter fun e => !isReplaced overrides e.1) =
    entries'.filter fun e => !isReplaced overrides e.1) :
    ofEntries (replaced entries overrides) = .ok o ↔ ofEntries (replaced entries' overrides) = .ok o := by
  have hentry (name : String) : Value.entry? (replaced entries overrides) name =
      Value.entry? (replaced entries' overrides) name := by
    refine entry?_replaced_congr (or_iff_not_imp_left.mpr fun hkept => ?_)
    rw [← entry?_filter_isReplaced hkept, h, entry?_filter_isReplaced hkept]
  have hfield {α : Type} (name : String) (default : α) (read : Value → Except Fault α) :
      field (replaced entries overrides) name default read = field (replaced entries' overrides) name default read := by
    rw [field, field, hentry]
  have hfields : (∀ e ∈ replaced entries overrides, IsField e.1) ↔ ∀ e ∈ replaced entries' overrides, IsField e.1 := by
    rw [forall_isField_replaced, forall_isField_replaced]
    refine and_congr_left fun hoverrides => ?_
    rw [← forall_isField_filter hoverrides, h, forall_isField_filter hoverrides]
  simp only [ofEntries_eq_ok_iff, hfield, hfields]

end Overrides

/-- Options are stable, and the forms of their fields do not matter. Their own fields make them up again, with the names
of a set in any order, but for a blank selector that was given as bytes. Names without commas are one set as a list and
as a text, with no blank around a name. And what a file says under a key that is replaced has no part in the options. -/
theorem ofEntries_stable (entries : List (Value × Value)) (names : List String) (file file' : OptionsFile)
    (overrides : List (Value × Value)) :
    (∀ o, ofEntries entries = .ok o → ∀ included excluded, included.Perm o.included → excluded.Perm o.excluded →
      ofEntries (fieldsOf o included excluded) = .ok o.withoutBlankSelector ∧
        (o.withoutBlankSelector = o ↔ ¬ GivesBlankBytes entries)) ∧
    ((∀ name ∈ names, ',' ∉ name.toList) →
      (∃ set, namesOf (.list (names.map .text)) = .ok set ∧ namesOf (.text (",".intercalate names)) = .ok set ∧
        ∀ name ∈ set, IsTrimmed name) ∧
      ∀ field, field = "include" ∨ field = "exclude" → ∀ before after,
        ofEntries (before ++ (.text field, .list (names.map .text)) :: after) =
          ofEntries (before ++ (.text field, .text (",".intercalate names)) :: after)) ∧
    ∀ found found', entriesOf file = .ok found → entriesOf file' = .ok found' →
      (found.filter fun e => !isReplaced overrides e.1) = (found'.filter fun e => !isReplaced overrides e.1) →
        ∀ o, load (some file) overrides = .ok o ↔ load (some file') overrides = .ok o := by
  refine ⟨fun o h included excluded hincluded hexcluded => ⟨?_, ?_⟩, fun hnames => ⟨?_, ?_⟩, ?_⟩
  · exact ofEntries_fieldsOf h hincluded hexcluded
  · exact withoutBlankSelector_eq_self_iff.trans (selector_blank_iff h)
  · have hread : namesOf (.list (names.map .text)) = .ok (nameSet (trimmedNames ((names.map .text).map Value.plain))) := rfl
    exact ⟨_, hread, (namesOf_intercalate hnames).trans hread, (namesOf_eq_ok hread).2⟩
  · exact fun field hfield before after => ofEntries_congr hfield (namesOf_intercalate hnames).symm
  · intro found found' hread hread' hrest o
    rw [load_eq_ok_iff, load_eq_ok_iff]
    simp only [hread, hread', Except.ok.injEq, exists_eq_left', ofEntries_replaced_iff hrest]

/-- Names in falling order with white space around one, and a strategy that is none in a file where it is replaced. -/
theorem ofEntries_stable_strategy :
    let names := ["p", " div\t"]
    let entries : List (Value × Value) := [(.text "include", .list (names.map .text))]
    let file : OptionsFile := ⟨"o.yaml", some (Text.encode "strategy: 1\n".toList)⟩
    let file' : OptionsFile := ⟨"o.yaml", some (Text.encode "strategy: slug\n".toList)⟩
    let overrides : List (Value × Value) := [(.text "strategy", .text "path")]
    ofEntries entries = .ok { included := ["div", "p"] } ∧
    ofEntries (fieldsOf { included := ["div", "p"] } ["p", "div"] []) = .ok { included := ["div", "p"] } ∧
    namesOf (.text (",".intercalate names)) = .ok ["div", "p"] ∧
    ∀ o, load (some file) overrides = .ok o ↔ load (some file') overrides = .ok o := by
  intro names entries file file' overrides
  have hentries : ofEntries entries = .ok { included := ["div", "p"] } := rfl
  have hread {f : OptionsFile} (h : ((entriesOf f).toOption.map fun entries =>
      (entries.filter fun e => !isReplaced overrides e.1).isEmpty) = some true) :
      ∃ entries, entriesOf f = .ok entries ∧ (entries.filter fun e => !isReplaced overrides e.1) = [] := by
    cases hfound : entriesOf f with
    | error fault =>
        rw [hfound] at h
        cases h
    | ok entries =>
        rw [hfound] at h
        exact ⟨entries, rfl, List.isEmpty_iff.mp (Option.some.inj h)⟩
  obtain ⟨found, hfound, hrest⟩ := hread (f := file) (by decide +kernel)
  obtain ⟨found', hfound', hrest'⟩ := hread (f := file') (by decide +kernel)
  obtain ⟨hstable, hnames, hload⟩ := ofEntries_stable entries names file file' overrides
  obtain ⟨hagain, -⟩ := hstable _ hentries ["p", "div"] [] (List.Perm.swap "div" "p" []) (.refl [])
  obtain ⟨⟨set, hlist, htext, -⟩, -⟩ := hnames (by decide)
  exact ⟨hentries, hagain, htext.trans (hlist.symm.trans rfl), hload found found' hfound hfound'
    (hrest.trans hrest'.symm)⟩

/-- A blank selector that is given as bytes is kept, and is none where it is given again. -/
theorem ofEntries_keeps_blank_bytes :
    ofEntries [(.text "selector", .bytes [32, 32])] = .ok { selector := some "  " } ∧
    ofEntries (fieldsOf { selector := some "  " } [] []) = .ok {} ∧
    ({ selector := some "  " } : Options).selector ≠ ({} : Options).selector := by
  exact ⟨rfl, rfl, by decide⟩

end MarkupIds.Options
