import Mathlib.Data.List.Pairwise
import MarkupIds.Proofs.Jsx.Ledger

/-! The edits of a program never overlap: those of a start tag keep to its stretch of the text, and there
each removed attribute stands clear of the others and of the place where the new one goes. So every
program that can be read gets its ids. -/

namespace MarkupIds.Jsx

namespace Chained

variable {first last : Nat} {attributes : List Attribute}

theorem of_mem (h : Chained first last attributes) {a : Attribute} (ha : a ∈ attributes) :
    first ≤ a.before ∧ a.before ≤ a.stop ∧ a.stop ≤ last := by
  induction attributes generalizing first with
  | nil => cases ha
  | cons b attributes ih =>
      obtain ⟨hfirst, hbefore, hstop, hrest⟩ := h
      rcases List.mem_cons.mp ha with rfl | ha
      · have := hrest.lastStop_bounds
        omega
      · have := ih hrest ha
        omega

theorem pairwise (h : Chained first last attributes) :
    attributes.Pairwise fun a b => a.stop ≤ b.before := by
  induction attributes generalizing first with
  | nil => exact .nil
  | cons a attributes ih =>
      obtain ⟨-, -, -, hrest⟩ := h
      exact List.pairwise_cons.mpr ⟨fun b hb => (hrest.of_mem hb).1, ih hrest⟩

/-- Attributes reach as far as the last of them. -/
theorem to_lastStop (h : Chained first last attributes) : Chained first (lastStop first attributes) attributes := by
  induction attributes generalizing first with
  | nil => exact Nat.le_refl first
  | cons a attributes ih =>
      obtain ⟨hbefore, hstart, hstop, hrest⟩ := h
      rw [lastStop_cons]
      exact ⟨hbefore, hstart, hstop, ih hrest⟩

end Chained

namespace Tag

variable {first last : Nat} {t : Tag} (o : Options)

/-- The place where a new attribute goes: behind the last that stays, or behind the name. -/
def newPlace (t : Tag) (o : Options) : Nat := ((t.kept o).getLast?.map (·.stop)).getD t.nameStop

theorem edits_eq (t : Tag) (id : List Char) : t.edits o id =
    (t.removed o).map (fun a => ⟨a.before, a.stop, []⟩) ++
      [⟨t.newPlace o, t.newPlace o, Markup.written o.attr (escapeValue id)⟩] := rfl

theorem newPlace_eq (t : Tag) : t.newPlace o = t.nameStop ∨ ∃ a ∈ t.kept o, t.newPlace o = a.stop := by
  unfold newPlace
  cases hlast : (t.kept o).getLast? with
  | none => exact .inl rfl
  | some a => exact .inr ⟨a, List.mem_of_getLast? hlast, rfl⟩

theorem mem_kept {a : Attribute} (h : a ∈ t.kept o) : a ∈ t.attributes := by
  unfold kept at h
  split at h
  · exact (List.mem_filter.mp h).1
  · exact h

theorem mem_removed {a : Attribute} (h : a ∈ t.removed o) : a ∈ t.attributes := by
  unfold removed at h
  split at h
  · exact (List.mem_filter.mp h).1
  · cases h

theorem kept_ne_removed {a b : Attribute} (ha : a ∈ t.kept o) (hb : b ∈ t.removed o) : a ≠ b := by
  rintro rfl
  unfold kept at ha
  unfold removed at hb
  split at hb
  next hoverwrite =>
    rw [if_pos hoverwrite] at ha
    have hkept := (List.mem_filter.mp ha).2
    have hremoved := (List.mem_filter.mp hb).2
    simp_all
  next => cases hb

variable (h : t.Within first last)

include h

/-- The place of a new attribute is among those of the others. -/
theorem Within.newPlace_bounds : t.nameStop ≤ t.newPlace o ∧ t.newPlace o ≤ t.place := by
  have hattributes := h.2.to_lastStop
  obtain hplace | ⟨a, ha, hplace⟩ := t.newPlace_eq o
  · rw [hplace]
    exact ⟨Nat.le_refl _, hattributes.lastStop_bounds.1⟩
  · have hbounds := hattributes.of_mem (mem_kept o ha)
    rw [hplace]
    exact ⟨by omega, hbounds.2.2⟩

/-- The edits of a start tag stand between its name and the end of its attributes. -/
theorem Within.edits_bounds {id : List Char} {e : Edit} (he : e ∈ t.edits o id) :
    t.nameStop ≤ e.start ∧ e.start ≤ e.stop ∧ e.stop ≤ t.place := by
  rw [edits_eq] at he
  rcases List.mem_append.mp he with he | he
  · obtain ⟨a, ha, rfl⟩ := List.mem_map.mp he
    exact h.2.to_lastStop.of_mem (mem_removed o ha)
  · rw [List.mem_singleton.mp he]
    have hplace := h.newPlace_bounds o
    exact ⟨hplace.1, Nat.le_refl _, hplace.2⟩

/-- The edits of a start tag keep to its stretch. -/
theorem Within.of_mem_edits {id : List Char} {e : Edit} (he : e ∈ t.edits o id) :
    first ≤ e.start ∧ e.start ≤ e.stop ∧ e.stop ≤ last := by
  have hedits := h.edits_bounds o he
  have hplace := h.place_bounds
  have hname := h.1
  omega

/-- No removed attribute reaches over the place of the new one. -/
theorem Within.newPlace_outside {a : Attribute} (ha : a ∈ t.removed o) :
    a.stop ≤ t.newPlace o ∨ t.newPlace o ≤ a.before := by
  have hbounds := h.2.of_mem (mem_removed o ha)
  obtain hplace | ⟨b, hb, hplace⟩ := t.newPlace_eq o
  · exact .inr (hplace ▸ hbounds.1)
  · let R (a b : Attribute) : Prop := a.stop ≤ b.before ∨ b.stop ≤ a.before
    have : Std.Symm R := ⟨fun _ _ => Or.symm⟩
    have hapart : t.attributes.Pairwise R := h.2.pairwise.imp .inl
    have hkept := mem_kept o hb
    rcases hapart.forall (mem_removed o ha) hkept (kept_ne_removed o hb ha).symm with hle | hle
    · have := h.2.of_mem hkept
      exact .inl (by omega)
    · exact .inr (by omega)

theorem Within.pairwise_edits (id : List Char) : (t.edits o id).Pairwise Edit.Disjoint := by
  have hremoved : (t.removed o).Pairwise fun a b => a.stop ≤ b.before := by
    unfold removed
    split
    · exact h.2.pairwise.filter _
    · exact .nil
  rw [edits_eq]
  refine List.pairwise_append.mpr ⟨?_, List.pairwise_singleton _ _, ?_⟩
  · exact List.pairwise_map.mpr (hremoved.imp fun hle => .inl hle)
  · intro e he e' he'
    obtain ⟨a, ha, rfl⟩ := List.mem_map.mp he
    rw [List.mem_singleton.mp he']
    exact h.newPlace_outside o ha

end Tag

/-- The edits of start tags that stand apart do not overlap. -/
theorem Tag.Apart.disjoint {t u : Tag} (o : Options) (h : t.Apart u) {id id' : List Char} {e e' : Edit}
    (he : e ∈ t.edits o id) (he' : e' ∈ u.edits o id') : Edit.Disjoint e e' := by
  obtain ⟨first, middle, last, ⟨ht, hu⟩ | ⟨hu, ht⟩⟩ := h
  · have := ht.of_mem_edits o he
    have := hu.of_mem_edits o he'
    exact .inl (by omega)
  · have := ht.of_mem_edits o he
    have := hu.of_mem_edits o he'
    exact .inr (by omega)

section Served

variable {o : Options} {first last : Nat} {trees : List (Grammar.Tree Kind)}

theorem mem_tags_of_mem_provided {nodes : List Node} {e : Tag × String} (h : e ∈ Generator.provided (served o nodes)) :
    e.1 ∈ Node.tags nodes := by
  have hmem := (Generator.map_fst_provided_sublist _).subset (List.mem_map_of_mem (f := Prod.fst) h)
  rwa [served, Generator.map_fst_serve, map_fst_requests] at hmem

/-- The edits of a program do not overlap. -/
theorem pairwise_disjoint_editsFor (h : Grammar.Spans first last trees) :
    (editsFor o (Generator.provided (served o (nodesOf trees)))).Pairwise Edit.Disjoint := by
  refine List.pairwise_flatMap.mpr ⟨?_, ?_⟩
  · intro e he
    exact (within_of_mem_tags h (mem_tags_of_mem_provided he)).pairwise_edits o e.2.toList
  · have htags := Generator.map_fst_provided_sublist (served o (nodesOf trees))
    rw [served, Generator.map_fst_serve, map_fst_requests] at htags
    have hapart := List.pairwise_map.mp ((pairwise_apart h).sublist htags)
    refine hapart.imp ?_
    intro t u htu e he e' he'
    exact htu.disjoint o he he'

/-- A program whose trees stand in its text gets its ids. -/
theorem exists_assign (o : Options) {source : List Char} {read : Reader} (hread : read source = .ok trees)
    (h : Grammar.Spans 0 source.length trees) :
    ∃ out, (assign source o read).result = .ok out ∧
      Edit.splice source (editsFor o (Generator.provided (served o (nodesOf trees)))) = .ok out := by
  have hrange : ∀ e ∈ editsFor o (Generator.provided (served o (nodesOf trees))), e.start ≤ e.stop := by
    intro e he
    obtain ⟨f, hf, he⟩ := List.mem_flatMap.mp he
    exact ((within_of_mem_tags h (mem_tags_of_mem_provided hf)).of_mem_edits o he).2.1
  obtain ⟨out, hout⟩ : ∃ out, Edit.splice source _ = .ok out :=
    Edit.exists_splice hrange (pairwise_disjoint_editsFor h)
  exact ⟨out, result_assign hread hout, hout⟩

end Served

end MarkupIds.Jsx
