import MarkupIds.Document
import MarkupIds.Proofs.Html.Ledger
import MarkupIds.Proofs.Html.StartTag
import MarkupIds.Proofs.Jsx.Ledger
import MarkupIds.Proofs.Xml.Ledger

/-! A document whose ids are kept only gains text: the attributes of its new ids are put in at places
that rise, each with an id of its own, and all characters of the document stay where they are. -/

namespace MarkupIds

/-- An id as it is written between quotes. -/
def Format.escape : Format → List Char → List Char
  | .jsx => Jsx.escapeValue
  | _ => Markup.escape

namespace Document

variable {o : Options} {format : Format} {source out : List Char} {host : Host}

/-- The edit puts the attribute of an id in at a place. -/
def Writes (format : Format) (o : Options) (source : List Char) (e : Edit) (m : Nat × String) : Prop :=
  Edit.Inserts source e m.1 (Markup.written o.attr (format.escape m.2.toList))

/-- The edit starts before the place at which it puts the attribute in. -/
def WritesBehind (format : Format) (o : Options) (source : List Char) (e : Edit) (m : Nat × String) :
    Prop := Writes format o source e m ∧ e.start < m.1

/-- A text that is another with attributes put in: the places rise, and no id stands twice. -/
structure Inserted (format : Format) (o : Options) (source out : List Char)
    (given : List (Nat × String)) : Prop where
  rising : given.Pairwise fun a b => a.1 < b.1
  inside : ∀ m ∈ given, m.1 ≤ source.length
  distinct : (given.map Prod.snd).Nodup
  text_eq : out = Text.insertAll
    (given.map fun m => (m.1, Markup.written o.attr (format.escape m.2.toList))) source

/-- Edits that write ids give such a text, if the places of the ids in it rise. -/
theorem inserted_of_splice {R : Edit → Nat × String → Prop} {edits : List Edit}
    {given : List (Nat × String)} (hR : ∀ e m, R e m → Writes format o source e m)
    (hgiven : List.Forall₂ R edits given) (hdistinct : (given.map Prod.snd).Nodup)
    (hsplice : Edit.splice source edits = .ok out)
    (hrising : ∀ edits' given', List.Forall₂ R edits' given' → given'.Perm given →
      edits'.Pairwise (fun a b => a.stop ≤ b.start) → given'.Pairwise fun a b => a.1 < b.1) :
    ∃ given', Inserted format o source out given' ∧ given'.length = given.length := by
  obtain ⟨edits', given', hwrites, hperm, hpairs, hout⟩ := Edit.splice_inserts hR hgiven hsplice
  refine ⟨given', ⟨hrising edits' given' hwrites hperm hpairs, ?_, ?_, hout⟩, hperm.length_eq⟩
  · intro m hm
    obtain ⟨e, _, he⟩ := exists_of_forall₂_of_mem (List.Forall₂.flip hwrites) hm
    have hin := hR e m he
    exact Nat.le_trans hin.le_stop hin.stop_le
  · exact (hperm.map Prod.snd).nodup_iff.mpr hdistinct

/-- The places behind the starts of edits that follow each other rise. -/
theorem rising_of_writesBehind {edits : List Edit} {given : List (Nat × String)}
    (hgiven : List.Forall₂ (WritesBehind format o source) edits given)
    (hpairs : edits.Pairwise fun a b => a.stop ≤ b.start) : given.Pairwise fun a b => a.1 < b.1 := by
  refine pairwise_of_forall₂ hgiven hpairs ?_
  intro a m b n hm hn hle
  have hstop := hm.1.le_stop
  have hstart := hn.2
  omega

/-- Places for edits of which each has one. -/
theorem exists_given {α : Type} {R : Edit → Nat × String → Prop} {edits : List Edit}
    {entries : List (α × String)}
    (h : List.Forall₂ (fun e a => ∃ place, R e (place, a.2)) edits entries) :
    ∃ given, List.Forall₂ R edits given ∧ given.map Prod.snd = entries.map Prod.snd := by
  induction h with
  | nil => exact ⟨[], .nil, rfl⟩
  | @cons e a edits entries hplace _ ih =>
      obtain ⟨place, hR⟩ := hplace
      obtain ⟨given, hgiven, hids⟩ := ih
      exact ⟨(place, a.2) :: given, .cons hR hgiven, congrArg (a.2 :: ·) hids⟩

/-- Edits with places behind their starts, and ids of which none is given twice. -/
theorem inserted_of_writesBehind {α : Type} {edits : List Edit} {entries : List (α × String)}
    (h : List.Forall₂ (fun e a => ∃ place, WritesBehind format o source e (place, a.2)) edits entries)
    (hdistinct : (entries.map Prod.snd).Nodup) (hsplice : Edit.splice source edits = .ok out) :
    ∃ given, Inserted format o source out given ∧ given.length = entries.length := by
  obtain ⟨given, hgiven, hids⟩ := exists_given h
  have hlength : given.length = entries.length := by
    simpa only [List.length_map] using congrArg List.length hids
  rw [← hids] at hdistinct
  obtain ⟨given', hinserted, hlength'⟩ := inserted_of_splice (fun e m hm => hm.1) hgiven hdistinct
    hsplice fun edits' given' hwrites _ hpairs => rising_of_writesBehind hwrites hpairs
  exact ⟨given', hinserted, hlength'.trans hlength⟩

section Html

open Html

theorem writesBehind_editFor (hkeep : o.overwrite = false) {starts : List Nat}
    {e : Markup.Numbered} {id : String} {edit : Edit} (h : editFor o source starts e id = .ok edit) :
    ∃ place, WritesBehind .html o source edit (place, id) := by
  obtain ⟨t, ht, -, rfl⟩ := editFor_ok h
  obtain ⟨-, rest, hrest⟩ := StartTag.read?_eq_some ht
  have hstart : Text.offsetIn starts e.tag.position ≤ source.length := by
    by_contra hlt
    rw [List.drop_eq_nil_of_le (by omega)] at hrest
    cases hrest
  have htext : t.text = ('<' :: (t.name ++ t.attributes)) ++ t.tail := rfl
  have hnew : (t.withId o.overwrite o.attr id.toList).text = ('<' :: (t.name ++ t.attributes)) ++
      Markup.written o.attr (Markup.escape id.toList) ++ t.tail := by
    rw [hkeep]
    simp [StartTag.withId, StartTag.text]
  refine ⟨Text.offsetIn starts e.tag.position + ('<' :: (t.name ++ t.attributes)).length, ?_, ?_⟩
  · rw [htext] at hrest
    rw [hnew, htext]
    exact Edit.Inserts.of_parts _ hstart hrest
  · exact Nat.lt_add_of_pos_right (Nat.succ_pos _)

theorem inserted_html (hkeep : o.overwrite = false) (h : (assign source o).result = .ok out) :
    ∃ given visited, Inserted .html o source out given ∧
      (assign source o).events = [o.assignedEvent .html visited given.length] := by
  obtain ⟨selector, nodes, edits, -, -, hedits, hsplice, hevents⟩ := assign_ok h
  obtain ⟨given, hgiven, hlength⟩ := inserted_of_writesBehind
    (hedits.imp fun e a he => writesBehind_editFor hkeep he)
    (Generator.nodup_provided_serve o _) hsplice
  exact ⟨given, _, hgiven, by rw [hevents, hlength, hedits.length_eq]⟩

end Html

section Xml

open Xml

/-- The tag with an id added is the tag with the attribute before its tail. -/
theorem text_withId (t : StartTag) (attr id : List Char) :
    (t.withId false attr id).text = ('<' :: (t.name ++ t.attributes.flatMap WrittenAttribute.text)) ++
      Markup.written attr (Markup.escape id) ++ t.tail := by
  simp [StartTag.withId, StartTag.text, WrittenAttribute.text, Markup.written]

theorem writesBehind_editsFrom (hkeep : o.overwrite = false)
    {entries : List (Token × Option String)} (hopenings : GivenToOpenings entries) {offset : Nat}
    {rest : List Char} (hoffset : offset ≤ source.length)
    (hsource : source.drop offset = entries.flatMap (·.1.text) ++ rest) :
    List.Forall₂ (fun e a => ∃ place, WritesBehind .xml o source e (place, a.2))
      (editsFrom o offset entries) (Generator.provided entries) := by
  induction entries generalizing offset with
  | nil => exact .nil
  | cons entry entries ih =>
      obtain ⟨token, given⟩ := entry
      have hhere : source.drop offset = token.text ++ (entries.flatMap (·.1.text) ++ rest) := by
        rw [hsource, List.flatMap_cons, List.append_assoc]
      have hnext : source.drop (offset + token.text.length) = entries.flatMap (·.1.text) ++ rest := by
        rw [← List.drop_drop, hhere, List.drop_left]
      have hle : offset + token.text.length ≤ source.length := by
        have := congrArg List.length hhere
        rw [List.length_drop, List.length_append] at this
        omega
      have hothers := ih hopenings.of_cons hle hnext
      cases given with
      | none => cases token <;> exact hothers
      | some id =>
          obtain ⟨t, rfl⟩ := hopenings token id List.mem_cons_self
          refine .cons ⟨offset + ('<' :: (t.name ++ t.attributes.flatMap WrittenAttribute.text)).length,
            ?_, ?_⟩ hothers
          · rw [hkeep, text_withId]
            exact Edit.Inserts.of_parts (a := '<' :: (t.name ++ t.attributes.flatMap _)) _ hoffset hhere
          · exact Nat.lt_add_of_pos_right (Nat.succ_pos _)

theorem inserted_xml (hkeep : o.overwrite = false) (h : (assign source o).result = .ok out) :
    ∃ given, Inserted .xml o source out given ∧
      (if Text.allBlank source then given = [] ∧ (assign source o).events = []
       else ∃ visited, (assign source o).events = [o.assignedEvent .xml visited given.length]) := by
  obtain ⟨hblank, rfl, hevents⟩ | ⟨hblank, selector, contents, visited, -, -, hrest, hsplice, hevents⟩ :=
    assign_ok h
  · refine ⟨[], ⟨.nil, by simp, .nil, rfl⟩, ?_⟩
    rw [if_pos hblank]
    exact ⟨rfl, hevents⟩
  · have hsource : source.drop 0 = (served o (surroundings o selector contents)
        (Token.list source).1).flatMap (·.1.text) ++ [] := by
      rw [← List.flatMap_map, map_fst_served, ← hrest]
      exact Token.list_eq source
    obtain ⟨given, hgiven, hlength⟩ := inserted_of_writesBehind
      (writesBehind_editsFrom hkeep (givenToOpenings_served o _ _) (Nat.zero_le _) hsource)
      (Generator.nodup_provided_serve o _) hsplice
    refine ⟨given, hgiven, ?_⟩
    rw [if_neg hblank]
    exact ⟨visited, by rw [hevents, hlength]⟩

end Xml

section Jsx

open Jsx

/-- The places of the ids that a program gets, in the order in which they are given. -/
def placesOf (entries : List (Tag × Option String)) : List (Nat × String) :=
  (Generator.provided entries).map fun a => (a.1.place, a.2)

theorem nodup_places {nodes : List Node} (h : (Node.tags nodes).Pairwise Tag.Apart) :
    ((placesOf (served o nodes)).map Prod.fst).Nodup := by
  have hsub := Generator.map_fst_provided_sublist (served o nodes)
  rw [served, Generator.map_fst_serve, map_fst_requests] at hsub
  have happart := List.pairwise_map.mp (h.sublist hsub)
  rw [placesOf, List.map_map, List.Nodup, List.pairwise_map]
  refine happart.imp_of_mem ?_
  rintro ⟨t, id⟩ ⟨u, id'⟩ ht hu htu
  obtain ⟨element, helement, -⟩ := Generator.of_mem_serve (Generator.mem_of_mem_provided ht)
  obtain ⟨element', helement', -⟩ := Generator.of_mem_serve (Generator.mem_of_mem_provided hu)
  exact htu.place_ne (name_ne_nil_of_mem_requests helement) (name_ne_nil_of_mem_requests helement')

/-- Where ids are kept, a new one takes one edit, which removes nothing. -/
theorem edits_of_keep (hkeep : o.overwrite = false) (t : Tag) (id : List Char) :
    t.edits o id = [⟨t.place, t.place, Markup.written o.attr (escapeValue id)⟩] := by
  simp only [Tag.edits, Tag.removed, Tag.kept, hkeep]
  rfl

theorem writes_placesOf (hkeep : o.overwrite = false) {nodes : List Node}
    (h : ∀ t ∈ Node.tags nodes, t.Within 0 source.length) :
    List.Forall₂ (Writes .jsx o source) (editsFor o (Generator.provided (served o nodes))) (placesOf (served o nodes)) := by
  have hedits : editsFor o (Generator.provided (served o nodes)) = (Generator.provided (served o nodes)).map fun a =>
      ⟨a.1.place, a.1.place, Markup.written o.attr (escapeValue a.2.toList)⟩ := by
    rw [editsFor, List.map_eq_flatMap]
    exact List.flatMap_congr fun a _ => edits_of_keep hkeep a.1 a.2.toList
  rw [hedits, placesOf, List.forall₂_map_left_iff, List.forall₂_map_right_iff, List.forall₂_same]
  rintro ⟨t, id⟩ ht
  have hmem : t ∈ Node.tags nodes := by
    rw [← map_fst_requests o [] 0 nodes, ← Generator.map_fst_serve o []]
    exact List.mem_map_of_mem (Generator.mem_of_mem_provided ht)
  refine ⟨Nat.le_refl _, Nat.le_refl _, (h t hmem).place_bounds.2, ?_⟩
  simp only [Nat.sub_self, List.take_zero, List.nil_append, List.append_nil]
  rfl

theorem inserted_jsx (hkeep : o.overwrite = false) {read : Reader}
    (hspans : ∀ trees, read source = .ok trees → Grammar.Spans 0 source.length trees)
    (h : (assign source o read).result = .ok out) :
    ∃ given visited edits, Inserted .jsx o source out given ∧
      (assign source o read).events =
        [{ level := .debug
           name := "jsx_ids_assigned"
           fields := [("visited", .int visited), ("assigned", .int given.length),
             ("edits", .int edits)] }] := by
  obtain ⟨trees, htrees, hsplice, hevents⟩ := assign_ok h
  have hspans := hspans trees htrees
  have hplaces := nodup_places (o := o) (pairwise_apart hspans)
  obtain ⟨given, hinserted, hlength⟩ := inserted_of_splice (R := Writes .jsx o source)
    (fun e m hm => hm) (writes_placesOf hkeep fun t ht => within_of_mem_tags hspans ht)
    (by
      rw [placesOf, List.map_map]
      exact Generator.nodup_provided_serve o (requests o [] 0 (nodesOf trees))) hsplice
    (by
      intro edits' given' hwrites hperm hpairs
      have hnodup := (hperm.map Prod.fst).nodup_iff.mpr hplaces
      have hweak : given'.Pairwise fun a b => a.1 ≤ b.1 := by
        refine pairwise_of_forall₂ hwrites hpairs ?_
        intro a m b n hm hn hle
        have hstop := hm.le_stop
        have hstart := hn.start_le
        omega
      refine (hweak.and (List.pairwise_map.mp hnodup)).imp ?_
      rintro a b ⟨hle, hne⟩
      exact Nat.lt_of_le_of_ne hle hne)
  refine ⟨given, (Progress.ofTrees o trees).visited, (Progress.ofTrees o trees).edits.length, hinserted, ?_⟩
  rw [hevents, hlength, placesOf, List.length_map, ← assigned_ofTrees]
  rfl

end Jsx

/-- The counts of new ids that the detailed events tell of. -/
def assignedCounts (events : List Event) : List (Option Value) :=
  (events.filter fun e => e.level == .debug).map fun e => e.fields.lookup "assigned"

/-- Where a document gets its ids, nothing was too much for the host. -/
theorem strain?_eq_none (h : (format.assign source o host).result = .ok out) : host.strain? format source o = none := by
  unfold Format.assign at h
  cases hstrain : host.strain? format source o with
  | none => rfl
  | some strain =>
      rw [hstrain] at h
      cases h

theorem assign_html (h : host.strain? .html source o = none) : Format.html.assign source o host = Html.assign source o := by
  unfold Format.assign
  rw [h]

theorem assign_jsx (h : host.strain? .jsx source o = none) :
    Format.jsx.assign source o host = Jsx.assign source o host.read := by
  unfold Format.assign
  rw [h]

theorem assign_xml (h : host.strain? .xml source o = none) : Format.xml.assign source o host = Xml.assign source o := by
  unfold Format.assign
  rw [h]

theorem process_ok (h : (process format source o host).result = .ok out) :
    (format.assign source o host).result = .ok out ∧
      assignedCounts (process format source o host).events =
        assignedCounts (format.assign source o host).events := by
  unfold process at h ⊢
  cases hassign : (format.assign source o host).result with
  | error failure =>
      simp only [hassign] at h
      split at h
      · cases h
      · rw [hassign] at h
        cases h
  | ok text =>
      simp only [hassign] at h ⊢
      refine ⟨h, ?_⟩
      simp only [assignedCounts, List.filter_append, List.map_append]
      exact List.append_nil _

/-- A document in which ids are kept comes out as it is, but for the attributes of the new ids: each is
put in at a place of its own, with an id of its own, and the detailed event tells how many there are. A
blank text is no XML document and comes out as it is without such an event. Of the reader of programs no more is asked
than that the parts of a program stand one behind the other. -/
theorem process_inserts (hkeep : o.overwrite = false)
    (hspans : format = .jsx → ∀ trees, host.read source = .ok trees → Grammar.Spans 0 source.length trees)
    (h : (process format source o host).result = .ok out) :
    ∃ given, Inserted format o source out given ∧ (given.length = 0 → out = source) ∧
      if format = .xml ∧ Text.allBlank source then
        given.length = 0 ∧ assignedCounts (process format source o host).events = []
      else assignedCounts (process format source o host).events = [some (.int given.length)] := by
  obtain ⟨hassign, hcounts⟩ := process_ok h
  rw [hcounts]
  have hstrain := strain?_eq_none hassign
  have hempty {given : List (Nat × String)} (hinserted : Inserted format o source out given)
      (hlength : given.length = 0) : out = source := by
    rw [hinserted.text_eq, List.length_eq_zero_iff.mp hlength]
    rfl
  cases format with
  | html =>
      rw [assign_html hstrain] at hassign ⊢
      obtain ⟨given, visited, hinserted, hevents⟩ := inserted_html hkeep hassign
      refine ⟨given, hinserted, hempty hinserted, ?_⟩
      rw [if_neg (by simp), hevents]
      rfl
  | jsx =>
      rw [assign_jsx hstrain] at hassign ⊢
      obtain ⟨given, visited, edits, hinserted, hevents⟩ := inserted_jsx hkeep (hspans rfl) hassign
      refine ⟨given, hinserted, hempty hinserted, ?_⟩
      rw [if_neg (by simp), hevents]
      rfl
  | xml =>
      rw [assign_xml hstrain] at hassign ⊢
      obtain ⟨given, hinserted, hevents⟩ := inserted_xml hkeep hassign
      refine ⟨given, hinserted, hempty hinserted, ?_⟩
      by_cases hblank : Text.allBlank source
      · rw [if_pos hblank] at hevents
        rw [if_pos ⟨rfl, hblank⟩, hevents.1, hevents.2]
        exact ⟨rfl, rfl⟩
      · rw [if_neg hblank] at hevents
        obtain ⟨visited, hevents⟩ := hevents
        rw [if_neg fun hboth => hblank hboth.2, hevents]
        rfl

theorem process_inserts_quoted_bracket :
    let o : Options := { strategy := .path }
    let source := "<DIV a='1>2'><p data-ast-id=\"k\"></p><b/></DIV>".toList
    let out := ("<DIV a='1>2' data-ast-id=\"el-div-0\"><p data-ast-id=\"k\"></p>" ++
      "<b data-ast-id=\"el-b-0-2\"/></DIV>").toList
    let program := "x = a ? (<b/>) : c => <i k=\"l\">d</i>;".toList
    let program' := "x = a ? (<b data-ast-id=\"el-b-0\"/>) : c => <i k=\"l\" data-ast-id=\"el-i-1\">d</i>;".toList
    o.overwrite = false ∧ (process .html source o).result = .ok out ∧ (process .jsx program o).result = .ok program' ∧
      (∃ given, Inserted .html o source out given ∧ (given.length = 0 → out = source) ∧
        assignedCounts (process .html source o).events = [some (.int given.length)]) ∧
      ∃ given, Inserted .jsx o program program' given ∧ (given.length = 0 → program' = program) ∧
        assignedCounts (process .jsx program o).events = [some (.int given.length)] := by
  intro o source out program program'
  have hhtml : (process .html source o).result = .ok out := Outcome.result_eq_ok_iff.mpr (by decide +kernel)
  have hjsx : (process .jsx program o).result = .ok program' := Outcome.result_eq_ok_iff.mpr (by decide +kernel)
  have hspans : Format.jsx = .jsx → ∀ trees, ({} : Host).read program = .ok trees →
      Grammar.Spans 0 program.length trees := by
    intro _ trees hread
    dsimp only at hread
    exact Grammar.spans_of_parse? (Jsx.reader_eq_ok_iff.mp hread)
  obtain ⟨given, hinserted, hsame, hcount⟩ := process_inserts rfl (by intro h; cases h) hhtml
  obtain ⟨given', hinserted', hsame', hcount'⟩ := process_inserts rfl hspans hjsx
  rw [if_neg (by simp)] at hcount hcount'
  exact ⟨rfl, hhtml, hjsx, ⟨given, hinserted, hsame, hcount⟩, given', hinserted', hsame', hcount'⟩

end Document

end MarkupIds
