import Mathlib.Data.List.Sort
import Mathlib.Data.String.Basic
import MarkupIds.Options.Validate
import MarkupIds.Proofs.Text.Words

/-! Sets of names. A set is the same however its names are given: in any order, and one by one or in one text with
commas between them. -/

namespace MarkupIds

section Sets

theorem mem_insertName {name other : String} {names : List String} :
    other ∈ insertName name names ↔ other = name ∨ other ∈ names := by
  induction names with
  | nil => simp [insertName]
  | cons first rest ih =>
      rw [insertName]
      split
      next h =>
        obtain rfl := beq_iff_eq.mp h
        simp
      next =>
        split
        next => rw [List.mem_cons, ih, List.mem_cons, or_left_comm]
        next => rw [List.mem_cons]

theorem mem_nameSet {name : String} {names : List String} : name ∈ nameSet names ↔ name ∈ names := by
  suffices hfold : ∀ set, name ∈ names.foldl (fun set name => insertName name set) set ↔ name ∈ set ∨ name ∈ names by
    simpa [nameSet] using hfold []
  induction names with
  | nil => simp
  | cons first rest ih =>
      intro set
      rw [List.foldl_cons, ih, mem_insertName, List.mem_cons]
      exact ⟨by rintro ((h | h) | h) <;> simp [h], by rintro (h | h | h) <;> simp [h]⟩

theorem pairwise_insertName (name : String) {names : List String} (h : names.Pairwise (· < ·)) :
    (insertName name names).Pairwise (· < ·) := by
  induction names with
  | nil => exact List.pairwise_singleton _ name
  | cons first rest ih =>
      obtain ⟨hfirst, hrest⟩ := List.pairwise_cons.mp h
      rw [insertName]
      split
      next => exact h
      next hne =>
        split
        next hless =>
          refine List.pairwise_cons.mpr ⟨fun other hother => ?_, ih hrest⟩
          obtain rfl | hother := mem_insertName.mp hother
          · exact hless
          · exact hfirst other hother
        next hnot =>
          have hless : name < first := lt_of_le_of_ne (not_lt.mp hnot) (by simpa using hne)
          refine List.pairwise_cons.mpr ⟨List.forall_mem_cons.mpr ⟨hless, fun other hother => ?_⟩, h⟩
          exact hless.trans (hfirst other hother)

/-- A set of names is in rising order. -/
theorem pairwise_nameSet (names : List String) : (nameSet names).Pairwise (· < ·) := by
  suffices hfold : ∀ set : List String, set.Pairwise (· < ·) →
      (names.foldl (fun set name => insertName name set) set).Pairwise (· < ·) from hfold [] .nil
  induction names with
  | nil => exact fun set hset => hset
  | cons first rest ih => exact fun set hset => ih _ (pairwise_insertName first hset)

/-- A set that is given again, in whatever order, is the same set. -/
theorem nameSet_of_perm {names set : List String} (h : names.Perm set) (hset : set.Pairwise (· < ·)) :
    nameSet names = set :=
  (pairwise_nameSet names).eq_of_mem_iff hset fun {name} => by rw [mem_nameSet, h.mem_iff]

end Sets

namespace Options

/-- A name that can be in a set: it is not empty, and no white space stands around it. -/
def IsTrimmed (name : String) : Prop := name ≠ "" ∧ String.ofList (Text.trim name.toList) = name

theorem isTrimmed_of_mem_trimmedNames {name : String} {texts : List String} (h : name ∈ trimmedNames texts) :
    IsTrimmed name := by
  obtain ⟨hmem, hne⟩ := List.mem_filter.mp h
  obtain ⟨s, -, rfl⟩ := List.mem_map.mp hmem
  exact ⟨by simpa using hne, by rw [String.toList_ofList, Text.trim_trim]⟩

theorem trimmedNames_of_isTrimmed {names : List String} (h : ∀ name ∈ names, IsTrimmed name) :
    trimmedNames names = names := by
  rw [trimmedNames, List.map_congr_left fun name hname => (h name hname).2, List.map_id',
    List.filter_eq_self.mpr fun name hname => by simpa using (h name hname).1]

/-- What is read as a set of names is one. -/
theorem namesOf_eq_ok {v : Value} {set : List String} (h : namesOf v = .ok set) :
    set.Pairwise (· < ·) ∧ ∀ name ∈ set, IsTrimmed name := by
  obtain ⟨texts, rfl⟩ : ∃ texts, set = nameSet (trimmedNames texts) := by
    unfold namesOf at h
    split at h
    · exact ⟨_, (Except.ok.inj h).symm⟩
    · exact ⟨_, (Except.ok.inj h).symm⟩
    · exact ⟨_, (Except.ok.inj h).symm⟩
    · cases h
  exact ⟨pairwise_nameSet _, fun name hname => isTrimmed_of_mem_trimmedNames (mem_nameSet.mp hname)⟩

theorem plain_map_text (names : List String) : (names.map Value.text).map Value.plain = names := by
  rw [List.map_map]
  exact List.map_id names

/-- A set of names that is given as a list of its names, in whatever order, is read as itself. -/
theorem namesOf_of_perm {names set : List String} (h : names.Perm set) (hset : set.Pairwise (· < ·))
    (htrimmed : ∀ name ∈ set, IsTrimmed name) : namesOf (.list (names.map .text)) = .ok set := by
  rw [namesOf, plain_map_text, trimmedNames_of_isTrimmed fun name hname => htrimmed name (h.mem_iff.mp hname),
    nameSet_of_perm h hset]

/-- Names without commas are the pieces of the text with commas between them, but no names leave one empty piece. -/
theorem splitWhere_intercalate {names : List String} (hne : names ≠ []) (h : ∀ name ∈ names, ',' ∉ name.toList) :
    (Text.splitWhere (· == ',') (",".intercalate names).toList).map String.ofList = names := by
  have hsingle {name : String} (hname : ',' ∉ name.toList) :
      Text.splitWhere (· == ',') name.toList = [name.toList] :=
    Text.splitWhere_of_forall fun c hc => beq_eq_false_iff_ne.mpr fun heq => hname (heq ▸ hc)
  induction names with
  | nil => exact absurd rfl hne
  | cons name rest ih =>
      obtain ⟨hname, hrest⟩ := List.forall_mem_cons.mp h
      by_cases hnil : rest = []
      · rw [hnil, String.intercalate_singleton, hsingle hname, List.map_singleton, String.ofList_toList]
      · have htext : (",".intercalate (name :: rest)).toList = name.toList ++ ',' :: (",".intercalate rest).toList := by
          rw [String.intercalate_cons_of_ne_nil hnil, String.toList_append, String.toList_append, List.append_assoc]
          rfl
        rw [htext, Text.splitWhere_append_cons (p := (· == ',')) (beq_self_eq_true ','), hsingle hname, List.map_append, ih hnil hrest]
        rw [List.map_singleton, String.ofList_toList]
        rfl

/-- A list of names without commas and the text of them with commas between them are read as the same set. -/
theorem namesOf_intercalate {names : List String} (h : ∀ name ∈ names, ',' ∉ name.toList) :
    namesOf (.text (",".intercalate names)) = namesOf (.list (names.map .text)) := by
  by_cases hne : names = []
  · subst hne
    rfl
  · rw [namesOf, namesOf, plain_map_text, splitWhere_intercalate hne h]

end Options

end MarkupIds
