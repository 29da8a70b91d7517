import MarkupIds.Proofs.Encoded
import MarkupIds.Proofs.Splice
import MarkupIds.Proofs.Jsx.Disjoint
import MarkupIds.Proofs.Jsx.Gaps

/-! The text of a program with ids, place by place. In each start tag that gets an id the attributes of that name are
gone with the white space before them, one new attribute stands behind the last that stays, and all else is kept. -/

namespace MarkupIds.Jsx

/-- The attribute gives way to a new one: it has the name of that, and values may be overwritten. -/
def Attribute.yields (a : Attribute) (o : Options) : Bool := o.overwrite && a.name == some o.attr

/-- What start tags with ids put in at an offset: the attribute for the id, where it is the place for it. -/
def putFor (o : Options) (given : List (Tag × String)) (i : Nat) : List Char :=
  given.flatMap fun e => if e.1.newPlace o = i then Markup.written o.attr (escapeValue e.2.toList) else []

/-- A start tag with an id gives up the character at an offset: it belongs to an attribute that gives way, or stands
between it and what comes before it in the tag. -/
def takenFor (o : Options) (given : List (Tag × String)) (i : Nat) : Bool :=
  given.any fun e => e.1.attributes.any fun a => a.yields o && (a.before ≤ i && i < a.stop)

/-- `out` is the text with ids for some start tags. -/
structure Rewritten (o : Options) (source : List Char) (given : List (Tag × String)) (out : List Char) : Prop where
  text : out = Text.weave (putFor o given) (takenFor o given) source
  spaces : ∀ e ∈ given, ∀ a ∈ e.1.attributes, a.yields o → Spaces source a.before a.start
  place : ∀ e ∈ given, e.1.nameStop ≤ e.1.newPlace o ∧ e.1.newPlace o ≤ e.1.place
  alone : ∀ e ∈ given, ∀ i, e.1.nameStop ≤ i → i ≤ e.1.place →
    putFor o given i = putFor o [e] i ∧ takenFor o given i = takenFor o [e] i

theorem Tag.removed_eq (t : Tag) (o : Options) : t.removed o = t.attributes.filter (·.yields o) := by
  unfold Tag.removed Attribute.yields
  cases o.overwrite <;> simp

section Given

variable {o : Options} {source : List Char} {given : List (Tag × String)}

/-- Start tags with ids stand apart in a text, and their attributes behind white space. -/
structure Laid (source : List Char) (given : List (Tag × String)) : Prop where
  within : ∀ e ∈ given, e.1.Within 0 source.length
  apart : given.Pairwise fun e f => e.1.Apart f.1
  named : ∀ e ∈ given, e.1.name ≠ []
  spaced : ∀ e ∈ given, Spaced source e.1

/-- Of two start tags with names that stand apart, one ends before the attributes of the other start. -/
theorem Tag.Apart.place_lt {t u : Tag} (h : t.Apart u) (ht : t.name ≠ []) (hu : u.name ≠ []) :
    t.place < u.nameStop ∨ u.place < t.nameStop := by
  have htpos := List.length_pos_iff.mpr ht
  have hupos := List.length_pos_iff.mpr hu
  obtain ⟨first, middle, last, ⟨hleft, hright⟩ | ⟨hleft, hright⟩⟩ := h
  · have hend := hleft.place_bounds
    have hstart := hright.1
    left
    omega
  · have hend := hleft.place_bounds
    have hstart := hright.1
    right
    omega

theorem putAt_editsFor (o : Options) (given : List (Tag × String)) :
    Edit.putAt (editsFor o given) = putFor o given := by
  funext i
  rw [Edit.putAt, editsFor, List.flatMap_assoc]
  refine List.flatMap_congr fun e _ => ?_
  have hremoved : ((e.1.removed o).map fun a => (⟨a.before, a.stop, []⟩ : Edit)).flatMap
      (fun a => if a.start = i then a.replacement else []) = [] := by
    refine List.flatMap_eq_nil_iff.mpr fun a ha => ?_
    obtain ⟨b, -, rfl⟩ := List.mem_map.mp ha
    exact ite_self []
  rw [Tag.edits_eq, List.flatMap_append, hremoved, List.flatMap_singleton]
  rfl

theorem takesAt_editsFor (o : Options) (given : List (Tag × String)) :
    Edit.takesAt (editsFor o given) = takenFor o given := by
  funext i
  rw [Edit.takesAt, editsFor, List.any_flatMap, takenFor]
  refine congrArg given.any (funext fun e => ?_)
  have hinserted : (decide (e.1.newPlace o ≤ i) && decide (i < e.1.newPlace o)) = false := by
    rw [Bool.and_eq_false_iff, decide_eq_false_iff_not, decide_eq_false_iff_not]
    omega
  rw [Tag.edits_eq, Tag.removed_eq, List.any_append, List.any_map, List.any_filter, List.any_cons, List.any_nil,
    hinserted, Bool.or_false, Bool.or_false]
  rfl

section Outside

variable {last i : Nat}

theorem putFor_append (a b : List (Tag × String)) : putFor o (a ++ b) i = putFor o a i ++ putFor o b i :=
  List.flatMap_append

theorem takenFor_append (a b : List (Tag × String)) :
    takenFor o (a ++ b) i = (takenFor o a i || takenFor o b i) := List.any_append

/-- Start tags put nothing in outside of their stretches, and give nothing up there. -/
theorem putFor_eq_nil (hwithin : ∀ e ∈ given, e.1.Within 0 last)
    (hout : ∀ e ∈ given, i < e.1.nameStop ∨ e.1.place < i) : putFor o given i = [] := by
  refine List.flatMap_eq_nil_iff.mpr fun e he => ?_
  have hplace := (hwithin e he).newPlace_bounds o
  have hthere := hout e he
  exact if_neg (by omega)

theorem takenFor_eq_false (hwithin : ∀ e ∈ given, e.1.Within 0 last)
    (hout : ∀ e ∈ given, i < e.1.nameStop ∨ e.1.place < i) : takenFor o given i = false := by
  refine List.any_eq_false.mpr fun e he => ?_
  rw [List.any_eq_true]
  rintro ⟨a, ha, htaken⟩
  have hbounds : e.1.nameStop ≤ a.before ∧ a.before ≤ a.stop ∧ a.stop ≤ e.1.place :=
    (hwithin e he).2.to_lastStop.of_mem ha
  have hthere := hout e he
  simp only [Bool.and_eq_true, decide_eq_true_eq] at htaken
  omega

end Outside

namespace Laid

variable (h : Laid source given)

include h

theorem range : ∀ e ∈ editsFor o given, e.start ≤ e.stop ∧ e.stop ≤ source.length := by
  intro e he
  obtain ⟨f, hf, he⟩ := List.mem_flatMap.mp he
  have hedits := (h.within f hf).edits_bounds o he
  have hplace := (h.within f hf).place_bounds
  omega

theorem place_lt : given.Pairwise fun e f => e.1.place < f.1.nameStop ∨ f.1.place < e.1.nameStop :=
  h.apart.imp_of_mem fun he hf hapart => hapart.place_lt (h.named _ he) (h.named _ hf)

/-- No two edits overlap, and no two put something in at one place. -/
theorem pairwise_editsFor : (editsFor o given).Pairwise fun a b =>
    Edit.Disjoint a b ∧ (a.start = b.start → a.replacement = [] ∨ b.replacement = []) := by
  refine List.pairwise_flatMap.mpr ⟨?_, ?_⟩
  · intro e he
    refine ((h.within e he).pairwise_edits o e.2.toList).and ?_
    rw [Tag.edits_eq]
    refine List.pairwise_append.mpr ⟨?_, List.pairwise_singleton _ _, ?_⟩
    · exact List.pairwise_map.mpr (List.pairwise_of_forall fun a b _ => .inl rfl)
    · intro a ha b hb _
      obtain ⟨_, -, rfl⟩ := List.mem_map.mp ha
      exact .inl rfl
  · refine h.place_lt.imp_of_mem ?_
    intro e f he hf hlt a ha b hb
    have hfirst := (h.within e he).edits_bounds o ha
    have hsecond := (h.within f hf).edits_bounds o hb
    constructor
    · rcases hlt with hlt | hlt
      · left
        omega
      · right
        omega
    · intro hstart
      omega

/-- Within a start tag only its own edits are made. -/
theorem alone {e : Tag × String} (he : e ∈ given) {i : Nat} (hstart : e.1.nameStop ≤ i) (hstop : i ≤ e.1.place) :
    putFor o given i = putFor o [e] i ∧ takenFor o given i = takenFor o [e] i := by
  have hwithin := h.within
  have hapart := h.place_lt
  obtain ⟨before, behind, rfl⟩ := List.append_of_mem he
  obtain ⟨-, hbehind, hacross⟩ := List.pairwise_append.mp hapart
  obtain ⟨hwithinBefore, hwithinRest⟩ := List.forall_mem_append.mp hwithin
  have hwithinBehind := (List.forall_mem_cons.mp hwithinRest).2
  have houtBefore : ∀ f ∈ before, i < f.1.nameStop ∨ f.1.place < i := by
    intro f hf
    rcases hacross f hf e List.mem_cons_self with hlt | hlt
    · right
      omega
    · left
      omega
  have houtBehind : ∀ f ∈ behind, i < f.1.nameStop ∨ f.1.place < i := by
    intro f hf
    rcases (List.pairwise_cons.mp hbehind).1 f hf with hlt | hlt
    · left
      omega
    · right
      omega
  rw [putFor_append, putFor_eq_nil hwithinBefore houtBefore, takenFor_append,
    takenFor_eq_false hwithinBefore houtBefore, ← List.singleton_append, putFor_append,
    putFor_eq_nil hwithinBehind houtBehind, takenFor_append, takenFor_eq_false hwithinBehind houtBehind,
    List.append_nil, List.nil_append, Bool.or_false, Bool.false_or]
  exact ⟨rfl, rfl⟩

/-- The edits can be made, and rewrite the text. -/
theorem rewritten (o : Options) :
    ∃ out, Edit.splice source (editsFor o given) = .ok out ∧ Rewritten o source given out := by
  have hpairs := h.pairwise_editsFor (o := o)
  have hsplice := Edit.splice_eq_weave (h.range (o := o)) (hpairs.imp fun hab => hab.1) (hpairs.imp fun hab => hab.2)
  rw [putAt_editsFor, takesAt_editsFor] at hsplice
  refine ⟨_, hsplice, rfl, ?_, ?_, ?_⟩
  · intro e he a ha hyields
    have hname : a.name = some o.attr := beq_iff_eq.mp (Bool.and_eq_true_iff.mp hyields).2
    refine h.spaced e he a ha ?_
    rw [hname]
    exact Option.some_ne_none _
  · intro e he
    exact (h.within e he).newPlace_bounds o
  · intro e he i hstart hstop
    exact h.alone he hstart hstop

end Laid

end Given

/-- The program is read as trees that stand in its text one behind the other, the parts inside their wholes, with only
white space before the attributes of a start tag. -/
structure Regular (source : List Char) (trees : List (Grammar.Tree Kind)) : Prop where
  spans : Grammar.Spans 0 source.length trees
  gapped : AllGapped source trees

section Trees

variable {source : List Char} {trees : List (Grammar.Tree Kind)}

theorem regular_of_reader (h : reader source = .ok trees) : Regular source trees where
  spans := Grammar.spans_of_parse? (reader_eq_ok_iff.mp h)
  gapped := allGapped_of_parse? (reader_eq_ok_iff.mp h)

/-- A start tag asks for an id where it is accepted. -/
theorem isSome_of_mem_requests {o : Options} {path : List Nat} {counter : Nat} {nodes : List Node}
    {r : Tag × Option Descriptor} (h : r ∈ requests o path counter nodes) : r.2.isSome = r.1.isAccepted o := by
  obtain ⟨path', children, hrequest⟩ := exists_request_of_mem_requests h
  rw [hrequest, request]
  split
  next haccepted =>
    rw [haccepted]
    rfl
  next hrefused =>
    rw [Bool.eq_false_iff.mpr hrefused]
    rfl

/-- The start tags that get ids are those accepted. -/
theorem map_fst_provided_served (o : Options) (nodes : List Node) :
    (Generator.provided (served o nodes)).map Prod.fst = (Node.tags nodes).filter (Tag.isAccepted o) := by
  rw [served, Generator.map_fst_provided_serve, ← map_fst_requests o [] 0 nodes, List.filter_map]
  exact congrArg (List.map Prod.fst) (List.filter_congr fun r hr => isSome_of_mem_requests hr)

theorem Tag.name_ne_nil {o : Options} {t : Tag} (h : t.isAccepted o) : t.name ≠ [] := by
  intro hname
  rw [Tag.isAccepted, hname] at h
  cases h

theorem Regular.laid (h : Regular source trees) (o : Options) :
    Laid source (Generator.provided (served o (nodesOf trees))) := by
  have htags : ∀ e ∈ Generator.provided (served o (nodesOf trees)),
      e.1 ∈ Node.tags (nodesOf trees) ∧ e.1.isAccepted o := by
    intro e he
    have hmem := List.mem_map_of_mem (f := Prod.fst) he
    rw [map_fst_provided_served] at hmem
    exact List.mem_filter.mp hmem
  refine ⟨?_, ?_, ?_, ?_⟩
  · intro e he
    exact within_of_mem_tags h.spans (htags e he).1
  · have hapart := (pairwise_apart h.spans).filter (Tag.isAccepted o)
    rw [← map_fst_provided_served] at hapart
    exact List.pairwise_map.mp hapart
  · intro e he
    exact Tag.name_ne_nil (htags e he).2
  · intro e he
    exact spaced_of_mem_tags h.gapped (htags e he).1

/-- What the grammar reads is read as regular trees. Where a program is, however it is read, the edits for its start
tags can be made, in characters or in the bytes of its text: each accepted start tag loses the attributes of the name
with the white space before them and gets the new one behind the last that stays, and nothing else changes. -/
theorem assign_rewrites (o : Options) (source : List Char) (trees : List (Grammar.Tree Kind)) :
    (reader source = .ok trees → Regular source trees) ∧
      (Regular source trees →
        let given := Generator.provided (served o (nodesOf trees))
        let edits := (Progress.ofTrees o trees).edits.reverse
        given.map Prod.fst = (Node.tags (nodesOf trees)).filter (Tag.isAccepted o) ∧
          ∃ out, Rewritten o source given out ∧ Edit.splice source edits = .ok out ∧
            (∀ read : Reader, read source = .ok trees → (assign source o read).result = .ok out) ∧
            ByteEdit.apply (Text.encode source) (edits.map (Edit.encoded source)) = .ok (Text.encode out) ∧
            Text.decode (Text.encode out) = .ok out) := by
  refine ⟨regular_of_reader, fun h => ⟨map_fst_provided_served o _, ?_⟩⟩
  have hlaid := h.laid o
  obtain ⟨out, hsplice, hrewritten⟩ := hlaid.rewritten o
  have hbytes := Edit.apply_encode hlaid.range hsplice
  rw [reverse_edits_ofTrees]
  exact ⟨out, hrewritten, hsplice, fun read hread => result_assign hread hsplice, hbytes, Text.decode_encode out⟩

theorem assign_rewrites_comment :
    let o : Options := { strategy := .path, attr := "id".toList, overwrite := true }
    let source := "x = <p id=\"x\" /*c*/ id=\x7b1\x7d k id>é<b id/></p>;".toList
    let out := "x = <p /*c*/ k id=\"el-p-0\">é<b id=\"el-b-0-1\"/></p>;".toList
    (assign source o).result = .ok out ∧
      ∃ trees, reader source = .ok trees ∧ Regular source trees ∧
        Rewritten o source (Generator.provided (served o (nodesOf trees))) out := by
  intro o source out
  have hresult : (assign source o).result = .ok out := Outcome.result_eq_ok_iff.mpr (by decide +kernel)
  obtain ⟨trees, htrees, -, -⟩ := assign_ok hresult
  obtain ⟨hregular, hrewrites⟩ := assign_rewrites o source trees
  obtain ⟨-, out', hrewritten, -, hassigned, -, -⟩ := hrewrites (hregular htrees)
  obtain rfl : out = out' := Except.ok.inj (hresult.symm.trans (hassigned reader htrees))
  exact ⟨hresult, trees, htrees, hregular htrees, hrewritten⟩

end Trees

end MarkupIds.Jsx
