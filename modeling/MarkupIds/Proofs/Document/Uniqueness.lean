import MarkupIds.Proofs.Document.Insertion
import MarkupIds.Proofs.Html.Preservation
import MarkupIds.Proofs.Html.Reference
import MarkupIds.Proofs.Jsx.Outlined
import MarkupIds.Proofs.Xml.Firm

/-! Which values of the attribute a document ends up with. The ids of a run differ from each other, but
the generator does not look at the values that the document keeps: the values that are found in the result are distinct
exactly where none of the kept ones comes twice and none is an id of the run. -/

namespace MarkupIds

/-- The value of the attribute that is found where an id has been written: HTML resolves references,
the other formats give the value as it stands. -/
def Format.readBack (format : Format) (id : List Char) : List Char :=
  match format with
  | .html => Html.expand (Markup.escape id)
  | .jsx => Jsx.escapeValue id
  | .xml => Markup.escape id

theorem Jsx.standsFor_escaped (c : Char) :
    Html.StandsFor (if c == '&' then "&amp;".toList else if c == '"' then "&quot;".toList else [c]) c := by
  by_cases hamp : c = '&'
  · subst hamp
    exact Html.standsFor_escapeChar '&'
  by_cases hquot : c = '"'
  · subst hquot
    exact Html.standsFor_escapeChar '"'
  · rw [if_neg (by simpa using hamp), if_neg (by simpa using hquot)]
    exact .inl ⟨rfl, hamp⟩

theorem Jsx.escapeValue_injective : Function.Injective Jsx.escapeValue :=
  Function.LeftInverse.injective (Html.expand_flatMap Jsx.standsFor_escaped)

theorem Format.readBack_injective (format : Format) : Function.Injective format.readBack := by
  cases format with
  | html => exact fun a b h => by simpa only [readBack, Html.expand_escape] using h
  | jsx => exact Jsx.escapeValue_injective
  | xml => exact Html.escape_injective

/-- What is written of the start of an id stands at the start of what is written of it. -/
theorem Format.readBack_prefixed (format : Format) {start id : List Char} (h : start <+: id) :
    format.readBack start <+: format.readBack id := by
  obtain ⟨rest, rfl⟩ := h
  cases format with
  | html =>
      rw [readBack, readBack, Html.expand_escape, Html.expand_escape]
      exact List.prefix_append _ _
  | jsx =>
      rw [readBack, readBack, Jsx.escapeValue, Jsx.escapeValue, List.flatMap_append]
      exact List.prefix_append _ _
  | xml =>
      rw [readBack, readBack, Markup.escape, Markup.escape, List.flatMap_append]
      exact List.prefix_append _ _

/-- The values of the attribute over all elements that are found in a text. Programs are read by the host. -/
def Format.values (format : Format) (host : Host) (o : Options) (text : List Char) : List (List Char) :=
  match format with
  | .html =>
    match Html.parse text with
    | .ok nodes => (Markup.Numbered.list nodes).filterMap (Html.existing? o)
    | .error _ => []
  | .jsx =>
    match host.read text with
    | .ok trees => (Jsx.elementTags trees).filterMap (·.existing? o.attr)
    | .error _ => []
  | .xml => Xml.Token.values o (Xml.Token.list text).1

/-- The start tags of the text are read as they are written, with an id in them too: they are plain, the host tells what
their parts are, or no document type ends before its last closing bracket. -/
def Format.Legible (format : Format) (host : Host) (o : Options) (text : List Char) : Prop :=
  match format with
  | .html => Html.IsPlain text
  | .jsx => ∃ inside programs pieces nodes,
      Jsx.Tells host.read o inside programs ∧ programs pieces nodes ∧ text = Jsx.Piece.textOf pieces
  | .xml => ∀ token ∈ (Xml.Token.list text).1, token.isClosed = true

namespace Document

variable {o : Options} {format : Format} {host : Host} {source out : List Char}

/-- The ids that a run hands out: they are distinct, start as they should and are written into the result, and the
detailed event tells how many there are. -/
structure HandsOut (format : Format) (host : Host) (o : Options) (source out : List Char) (ids : List String) : Prop where
  distinct : ids.Nodup
  prefixed : ∀ id ∈ ids, o.idPrefix.toList <+: id.toList
  written : ∀ id ∈ ids, Markup.written o.attr (format.escape id.toList) <:+: out
  counted : if format = .xml ∧ Text.allBlank source then ids = []
    else assignedCounts (format.assign source o host).events = [some (.int ids.length)]

/-- The ledger tells how the values in a document become those in the result. -/
def Settles (format : Format) (host : Host) (o : Options) (source out : List Char) (ledger : List Entry) : Prop :=
  Entry.Settles format.readBack (format.values host o source) (format.values host o out) ledger

section Html

open Html

/-- What the elements of a document have, and have when some got ids. -/
theorem settles_withIds {pieces : List Piece} {entries : List (Markup.Numbered × Option String)}
    {elements : List Markup.Numbered} {p q : Text.Position}
    (h : (entries.map Prod.fst).map (·.tag) = (Piece.tagsFrom p pieces).map fun a => a.2.tagAt a.1)
    (h' : elements.map (·.tag) =
      (Piece.tagsFrom q (Piece.withIds o pieces (entries.map Prod.snd))).map fun a => a.2.tagAt a.1) :
    Entry.Settles (fun id => id) ((entries.map Prod.fst).filterMap (existing? o)) (elements.filterMap (existing? o))
      (entries.map fun e => ⟨existing? o e.1, e.2⟩) := by
  have hcons (e : Markup.Numbered) (elements : List Markup.Numbered) :
      (e :: elements).filterMap (existing? o) = (existing? o e).toList ++ elements.filterMap (existing? o) := by
    rw [List.filterMap_cons]
    cases existing? o e <;> rfl
  induction pieces generalizing entries elements p q with
  | nil =>
      obtain rfl := List.map_eq_nil_iff.mp (List.map_eq_nil_iff.mp h)
      obtain rfl := List.map_eq_nil_iff.mp h'
      exact ⟨.slnil, rfl⟩
  | cons piece pieces ih =>
      cases piece with
      | other text tokens => exact ih h h'
      | tag t =>
          cases entries with
          | nil => cases h
          | cons entry entries =>
              obtain ⟨e, given⟩ := entry
              obtain ⟨htag, htags⟩ := List.cons.inj h
              cases given with
              | none =>
                  obtain ⟨e', elements, rfl, htag', h'⟩ := List.map_eq_cons_iff.mp h'
                  have hattributes : e'.tag.attributes = e.tag.attributes :=
                    (congrArg Markup.Tag.attributes htag').trans (congrArg Markup.Tag.attributes htag).symm
                  have hexisting : existing? o e' = existing? o e := by
                    rw [existing?, existing?, Markup.Tag.attribute?, Markup.Tag.attribute?, hattributes]
                  rw [List.map_cons, hcons, hcons, hexisting]
                  exact (Entry.Settles.kept _ (existing? o e)).append (ih htags h')
              | some id =>
                  obtain ⟨e', elements, rfl, htag', h'⟩ := List.map_eq_cons_iff.mp h'
                  rw [List.map_cons, hcons, hcons, existing?_withId htag']
                  exact (Entry.Settles.given _ (existing? o e) id).append (ih htags h')

theorem handsOut_html (h : (assign source o).result = .ok out) (hstrain : host.strain? .html source o = none) :
    ∃ ids, HandsOut .html host o source out ids ∧ (Format.html.Legible host o source →
      ∃ ledger, Settles .html host o source out ledger ∧ Entry.givenIds ledger = ids) := by
  obtain ⟨selector, nodes, edits, hselector, hparse, hedits, hsplice, hevents⟩ := assign_ok h
  refine ⟨(Generator.provided (served o (pickedIn selector nodes) (Markup.Numbered.list nodes))).map Prod.snd,
    ⟨Generator.nodup_provided_serve o _, fun id hid => Generator.prefixed_of_mem_provided_serve hid, ?_, ?_⟩, ?_⟩
  · intro id hid
    obtain ⟨⟨e, id⟩, hmem, rfl⟩ := List.mem_map.mp hid
    obtain ⟨edit, hedit, hwritten⟩ := exists_of_forall₂_of_mem (List.Forall₂.flip hedits) hmem
    obtain ⟨t, -, -, rfl⟩ := editFor_ok hwritten
    exact (t.written_infix_withId o.overwrite o.attr id.toList).trans (Edit.infix_of_splice hsplice hedit)
  · rw [if_neg (by simp), assign_html hstrain, hevents, hedits.length_eq, List.length_map]
    rfl
  · intro hplain
    obtain ⟨pieces, raw, hmade⟩ := (hplain : IsPlain source).exists_madeOf
    rw [hmade.assign_result hselector hparse] at h
    cases h
    obtain ⟨nodes', hparse', -⟩ := hmade.parse_withIds o
      (idsOf o (pickedIn selector nodes) [] (Markup.Numbered.list nodes)) hparse
    have hmade' := hmade.withIds o (idsOf o (pickedIn selector nodes) [] (Markup.Numbered.list nodes))
    have hfst : (served o (pickedIn selector nodes) (Markup.Numbered.list nodes)).map Prod.fst =
        Markup.Numbered.list nodes := by
      rw [served, Generator.map_fst_serve, List.map_map]
      exact List.map_id _
    have htags := hmade.map_tag_list hparse
    rw [← hfst] at htags
    have hledger := settles_withIds htags (hmade'.map_tag_list hparse')
    have hread : Format.html.readBack = fun id => id := funext Html.expand_escape
    rw [hfst] at hledger
    refine ⟨(served o (pickedIn selector nodes) (Markup.Numbered.list nodes)).map fun e => ⟨existing? o e.1, e.2⟩, ?_, ?_⟩
    · rw [Settles, Format.values, Format.values, hparse, hparse', hread]
      exact hledger
    · rw [Entry.givenIds, List.filterMap_map]
      exact (Generator.map_snd_provided _).symm

end Html

section Xml

open Xml

theorem exists_mem_editsFrom {entries : List (Token × Option String)} (hopenings : GivenToOpenings entries) (offset : Nat)
    {id : String} (hid : id ∈ (Generator.provided entries).map Prod.snd) :
    ∃ edit ∈ editsFrom o offset entries, Markup.written o.attr (Markup.escape id.toList) <:+: edit.replacement := by
  induction entries generalizing offset with
  | nil => cases hid
  | cons entry entries ih =>
      obtain ⟨token, given⟩ := entry
      cases given with
      | none => cases token <;> exact ih hopenings.of_cons _ hid
      | some id' =>
          obtain ⟨t, rfl⟩ := hopenings token id' List.mem_cons_self
          obtain rfl | hid := List.mem_cons.mp hid
          · exact ⟨_, List.mem_cons_self, t.written_infix_withId o.overwrite o.attr _⟩
          · obtain ⟨edit, hedit, hwritten⟩ := ih hopenings.of_cons _ hid
            exact ⟨edit, List.mem_cons_of_mem _ hedit, hwritten⟩

theorem handsOut_xml (h : (assign source o).result = .ok out) (hstrain : host.strain? .xml source o = none) :
    ∃ ids, HandsOut .xml host o source out ids ∧ (Format.xml.Legible host o source →
      ∃ ledger, Settles .xml host o source out ledger ∧ Entry.givenIds ledger = ids) := by
  obtain ⟨hblank, rfl, -⟩ | ⟨hblank, selector, contents, visited, hselector, hread, hrest, hsplice, hevents⟩ :=
    assign_ok h
  · refine ⟨[], ⟨.nil, List.forall_mem_nil _, List.forall_mem_nil _, ?_⟩, fun _ => ⟨_, .stay (.refl _), ?_⟩⟩
    · rw [if_pos ⟨rfl, hblank⟩]
    · rw [Entry.givenIds, List.filterMap_map]
      exact List.filterMap_eq_nil_iff.mpr fun _ _ => rfl
  · refine ⟨(Generator.provided (served o (surroundings o selector contents) (Token.list source).1)).map Prod.snd,
      ⟨Generator.nodup_provided_serve o _, fun id hid => Generator.prefixed_of_mem_provided_serve hid, ?_, ?_⟩, ?_⟩
    · intro id hid
      obtain ⟨edit, hedit, hwritten⟩ := exists_mem_editsFrom (givenToOpenings_served o _ _) 0 hid
      exact hwritten.trans (Edit.infix_of_splice hsplice hedit)
    · rw [if_neg fun hboth => hblank hboth.2, assign_xml hstrain, hevents, List.length_map]
      rfl
    · intro hclosed
      have htokens : Token.list source = ((Token.list source).1, []) := Prod.ext rfl hrest
      have hsource : (served o (surroundings o selector contents) (Token.list source).1).flatMap (·.1.text) ++ [] = source := by
        rw [← List.flatMap_map, map_fst_served, ← hrest]
        exact (Token.list_eq source).symm
      have hout := splice_editsFrom (o := o) (served o (surroundings o selector contents) (Token.list source).1) []
      rw [hsource, hsplice, List.append_nil] at hout
      rw [Except.ok.inj hout]
      exact exists_settles_served (surroundings o selector contents) htokens hclosed

end Xml

section Jsx

open Jsx

theorem handsOut_jsx (h : (assign source o host.read).result = .ok out) (hstrain : host.strain? .jsx source o = none) :
    ∃ ids, HandsOut .jsx host o source out ids ∧ (Format.jsx.Legible host o source →
      ∃ ledger, Settles .jsx host o source out ledger ∧ Entry.givenIds ledger = ids) := by
  obtain ⟨trees, hread, hsplice, hevents⟩ := assign_ok h
  refine ⟨(Generator.provided (served o (nodesOf trees))).map Prod.snd,
    ⟨Generator.nodup_provided_serve o _, fun id hid => Generator.prefixed_of_mem_provided_serve hid, ?_, ?_⟩, ?_⟩
  · intro id hid
    obtain ⟨⟨t, id⟩, hmem, rfl⟩ := List.mem_map.mp hid
    obtain ⟨i, hedit⟩ : ∃ i, ⟨i, i, Markup.written o.attr (escapeValue id.toList)⟩ ∈ t.edits o id.toList :=
      ⟨_, List.mem_append_right _ (List.mem_singleton_self _)⟩
    exact Edit.infix_of_splice hsplice (List.mem_flatMap.mpr ⟨(t, id), hmem, hedit⟩)
  · rw [if_neg (by simp), assign_jsx hstrain, hevents, List.length_map]
    change [some (Value.int (Progress.ofTrees o trees).assigned)] = _
    rw [assigned_ofTrees]
  · rintro ⟨inside, programs, pieces, nodes, htells, hpieces, rfl⟩
    obtain ⟨out', trees', ledger, hresult, hread', hids, hledger⟩ := htells.settles hpieces hread
    obtain rfl : out' = out := Except.ok.inj (hresult.symm.trans h)
    refine ⟨ledger, ?_, hids⟩
    rw [Settles, Format.values, Format.values, hread, hread']
    exact hledger

end Jsx

theorem exists_handsOut (h : (process format source o host).result = .ok out) :
    ∃ ids, HandsOut format host o source out ids ∧ (format.Legible host o source →
      ∃ ledger, Settles format host o source out ledger ∧ Entry.givenIds ledger = ids) := by
  obtain ⟨hassign, -⟩ := process_ok h
  have hstrain := strain?_eq_none hassign
  cases format with
  | html => exact handsOut_html (assign_html hstrain ▸ hassign) hstrain
  | jsx => exact handsOut_jsx (assign_jsx hstrain ▸ hassign) hstrain
  | xml => exact handsOut_xml (assign_xml hstrain ▸ hassign) hstrain

/-- The ids of a run are distinct and start with the configured text. Where start tags are read as they are written, the
values that are found in the result are those that the document keeps and the ids. They are distinct exactly where the
kept ones are, and none of these is an id of the run as it is found in the text; so they are where no kept value starts as
the ids do. -/
theorem process_values_nodup_iff (h : (process format source o host).result = .ok out) :
    ∃ ids, HandsOut format host o source out ids ∧ (format.Legible host o source →
      ∃ ledger, Settles format host o source out ledger ∧ Entry.givenIds ledger = ids ∧
        ((format.values host o out).Nodup ↔ (Entry.keptValues ledger).Nodup ∧
          ∀ v ∈ Entry.keptValues ledger, ∀ id ∈ ids, v ≠ format.readBack id.toList) ∧
        ((Entry.keptValues ledger).Nodup →
          (∀ v ∈ Entry.keptValues ledger, ¬ format.readBack o.idPrefix.toList <+: v) →
            (format.values host o out).Nodup)) := by
  obtain ⟨ids, hids, hlegible⟩ := exists_handsOut h
  refine ⟨ids, hids, fun hsource => ?_⟩
  obtain ⟨ledger, hledger, rfl⟩ := hlegible hsource
  have hiff := Entry.nodup_values_iff format.readBack_injective hids.distinct
  rw [← hledger.has] at hiff
  refine ⟨ledger, hledger, rfl, hiff, fun hkept hstart => hiff.mpr ⟨hkept, ?_⟩⟩
  rintro v hv id hid rfl
  exact hstart _ hv (format.readBack_prefixed (hids.prefixed id hid))

/-- In each format an element keeps its value, or a program or paragraph has none, and the others get ids of their own. -/
theorem process_values_nodup_iff_kept :
    let o : Options := { strategy := .path }
    let source := "<a data-ast-id=\"k\"><b/></a>".toList
    let out := "<a data-ast-id=\"k\"><b data-ast-id=\"el-b-0-1\"/></a>".toList
    let page := "<p class=\"x\" data-ast-id=\"el-p-0\">a<br data-ast-id=\"el-br-0-1\"/>b</p>".toList
    let program := "x = <b data-ast-id=\"k\"><i/></b>;".toList
    let program' := "x = <b data-ast-id=\"k\"><i data-ast-id=\"el-i-0-0\"/></b>;".toList
    (process .xml source o).result = .ok out ∧ Format.xml.Legible {} o source ∧
      Format.xml.values {} o out = ["k".toList, "el-b-0-1".toList] ∧ (Format.xml.values {} o out).Nodup ∧
      (process .html Html.paragraph o).result = .ok page ∧ Format.html.Legible {} o Html.paragraph ∧
      (Format.html.values {} o page).Nodup ∧
      (process .jsx program o).result = .ok program' ∧ Format.jsx.Legible {} o program ∧
      (Format.jsx.values {} o program').Nodup := by
  intro o source out page program program'
  have hvalues {format : Format} {s t : List Char} (h : (process format s o).result = .ok t)
      (hlegible : format.Legible {} o s) (hnodup : (format.values {} o s).Nodup)
      (hstart : ∀ v ∈ format.values {} o s, ¬ format.readBack "el-".toList <+: v) : (format.values {} o t).Nodup := by
    obtain ⟨ids, -, hreads⟩ := process_values_nodup_iff h
    obtain ⟨ledger, hledger, -, -, hdistinct⟩ := hreads hlegible
    have hsub := hledger.keptValues_sublist
    exact hdistinct (hnodup.sublist hsub) fun v hv => hstart v (hsub.subset hv)
  have hxml : (process .xml source o).result = .ok out := Outcome.result_eq_ok_iff.mpr (by decide +kernel)
  have hclosed : Format.xml.Legible {} o source := by
    have hall : (Xml.Token.list source).1.all Xml.Token.isClosed = true := by decide +kernel
    exact fun token htoken => List.all_eq_true.mp hall token htoken
  have hhtml : (process .html Html.paragraph o).result = .ok page := Outcome.result_eq_ok_iff.mpr (by decide +kernel)
  have hjsx : (process .jsx program o).result = .ok program' := Outcome.result_eq_ok_iff.mpr (by decide +kernel)
  let pieces : List Jsx.Piece := "x = ".toList.map .char ++
    .tag ⟨['b'], [.valued [' '] "data-ast-id=\"k\"".toList "data-ast-id".toList (some ['k'])]⟩ :: .char '>' ::
      .tag ⟨['i'], []⟩ :: "/></b>;".toList.map .char
  have htold : Format.jsx.Legible {} o program := by
    have hchecked : Jsx.Piece.isOutlined 300 pieces = true := by decide +kernel
    obtain ⟨nodes, houtlined⟩ := Jsx.exists_outlined_of_isOutlined hchecked
    have htells : Jsx.Tells Jsx.reader o (fun _ => []) Jsx.Outlined := Jsx.Outlined.tells (.inl (by decide)) (by decide)
    exact ⟨fun _ => [], Jsx.Outlined, pieces, nodes, htells, houtlined, by decide⟩
  have hkept : Format.jsx.values {} o program = [['k']] := by decide +kernel
  refine ⟨hxml, hclosed, by decide +kernel, hvalues hxml hclosed (by decide +kernel) (by decide +kernel), hhtml,
    Html.isPlain_paragraph, hvalues hhtml Html.isPlain_paragraph (by decide +kernel) (by decide +kernel), hjsx, htold,
    hvalues hjsx htold (hkept ▸ by decide) (hkept ▸ by decide)⟩

/-- An element has the id that the run then makes for another: the generator knows only the ids that
it has handed out itself. -/
theorem kept_value_given_again :
    let o : Options := { strategy := .path }
    let source := "<a data-ast-id=\"el-b-0-1\"><b/></a>".toList
    let out := "<a data-ast-id=\"el-b-0-1\"><b data-ast-id=\"el-b-0-1\"/></a>".toList
    Format.xml.values {} o source = ["el-b-0-1".toList] ∧ (process .xml source o).result = .ok out ∧
      Format.xml.values {} o out = ["el-b-0-1".toList, "el-b-0-1".toList] ∧ ¬ (Format.xml.values {} o out).Nodup :=
  ⟨by decide +kernel, Outcome.result_eq_ok_iff.mpr (by decide +kernel), by decide +kernel, by decide +kernel⟩

end Document

end MarkupIds
