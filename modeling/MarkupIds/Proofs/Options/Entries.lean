import MarkupIds.Options.Load

/-! Entries of options: what is found under a name when one more entry is put in or some are replaced, and which
entries make up options. -/

namespace MarkupIds

namespace Value

/-- Only a text names the same entry as a text. -/
theorem sameKey_text {key : Value} {name : String} : key.sameKey (.text name) = true ↔ key = .text name := by
  cases key with
  | text s => simp [sameKey, keyNumber?]
  | real x => cases hx : x.toInt? <;> simp [sameKey, keyNumber?, hx]
  | _ => simp [sameKey, keyNumber?]

theorem text_sameKey {key : Value} {name : String} : (text name).sameKey key = true ↔ key = .text name := by
  cases key with
  | text s => simpa [sameKey, keyNumber?] using eq_comm
  | real x => cases hx : x.toInt? <;> simp [sameKey, keyNumber?, hx]
  | _ => simp [sameKey, keyNumber?]

section Put

variable {entries : List (Value × Value)} {key value : Value} {name : String}

theorem entry?_cons (e : Value × Value) (entries : List (Value × Value)) (name : String) :
    entry? (e :: entries) name = if e.1.sameKey (.text name) then some e.2 else entry? entries name := by
  unfold entry?
  rw [List.find?_cons]
  cases e.1.sameKey (.text name) <;> rfl

theorem entry?_append (entries others : List (Value × Value)) (name : String) :
    entry? (entries ++ others) name =
      match entry? entries name with
      | some v => some v
      | none => entry? others name := by
  unfold entry?
  rw [List.find?_append]
  cases entries.find? fun e => e.1.sameKey (.text name) <;> rfl

/-- An entry that is put in is found. -/
theorem entry?_putEntry_self : entry? (putEntry entries (.text name) value) name = some value := by
  induction entries with
  | nil =>
      rw [putEntry, List.any_nil, if_neg Bool.false_ne_true, List.nil_append, entry?_cons, if_pos (sameKey_text.mpr rfl)]
  | cons e entries ih =>
      by_cases hsame : e.1.sameKey (.text name) = true
      · rw [putEntry, if_pos (by simp [hsame]), List.map_cons, if_pos hsame, entry?_cons, if_pos hsame]
      · have hput : putEntry (e :: entries) (.text name) value = e :: putEntry entries (.text name) value := by
          rw [putEntry, putEntry, List.any_cons, Bool.eq_false_iff.mpr hsame, Bool.false_or]
          split
          · rw [List.map_cons, if_neg hsame]
          · rfl
        rw [hput, entry?_cons, if_neg hsame, ih]

/-- An entry that is put in leaves those of other names as they are. -/
theorem entry?_putEntry_of_ne (hne : key ≠ .text name) :
    entry? (putEntry entries key value) name = entry? entries name := by
  unfold putEntry
  split
  next hany =>
    clear hany
    induction entries with
    | nil => rfl
    | cons e entries ih =>
        rw [List.map_cons, entry?_cons, entry?_cons, ih]
        by_cases hname : e.1.sameKey (.text name) = true
        · have hother : ¬ e.1.sameKey key = true := by
            rw [sameKey_text.mp hname, text_sameKey]
            exact hne
          rw [if_neg hother]
        · rw [apply_ite Prod.fst, ite_self, if_neg hname, if_neg hname]
  next =>
    have hnone : entry? [(key, value)] name = none := by
      rw [entry?_cons, if_neg fun hsame => hne (sameKey_text.mp hsame)]
      rfl
    rw [entry?_append, hnone]
    cases entry? entries name <;> rfl

end Put

end Value

namespace Options

section Replaced

variable {entries entries' overrides : List (Value × Value)} {key value : Value} {name : String}

/-- The entry of a key is replaced: some replacement that is not null names it. -/
def isReplaced (overrides : List (Value × Value)) (key : Value) : Bool :=
  overrides.any fun r =>
    match r.2 with
    | .null => false
    | _ => key.sameKey r.1

theorem isReplaced_cons_null : isReplaced ((key, .null) :: overrides) (.text name) = isReplaced overrides (.text name) := rfl

theorem isReplaced_cons (hvalue : value ≠ .null) : isReplaced ((key, value) :: overrides) (.text name) = true ↔
    key = .text name ∨ isReplaced overrides (.text name) = true := by
  rw [← Value.text_sameKey, ← Bool.or_eq_true, isReplaced, isReplaced, List.any_cons]
  cases value with
  | null => exact absurd rfl hvalue
  | _ => rfl

theorem replaced_cons_null : replaced entries ((key, .null) :: overrides) = replaced entries overrides := rfl

theorem replaced_cons (hvalue : value ≠ .null) :
    replaced entries ((key, value) :: overrides) = replaced (Value.putEntry entries key value) overrides := by
  cases value with
  | null => exact absurd rfl hvalue
  | _ => rfl

/-- What is found under a name that is replaced does not depend on the entries. -/
theorem entry?_replaced_congr
    (h : isReplaced overrides (.text name) = true ∨ Value.entry? entries name = Value.entry? entries' name) :
    Value.entry? (replaced entries overrides) name = Value.entry? (replaced entries' overrides) name := by
  induction overrides generalizing entries entries' with
  | nil =>
      obtain h | h := h
      · exact absurd h (by simp [isReplaced])
      · exact h
  | cons r overrides ih =>
      obtain ⟨key, value⟩ := r
      by_cases hvalue : value = .null
      · subst hvalue
        rw [isReplaced_cons_null] at h
        exact ih h
      rw [replaced_cons hvalue, replaced_cons hvalue]
      rw [isReplaced_cons hvalue] at h
      by_cases hkey : key = .text name
      · subst hkey
        exact ih (.inr (by rw [Value.entry?_putEntry_self, Value.entry?_putEntry_self]))
      · refine ih ?_
        rw [Value.entry?_putEntry_of_ne hkey, Value.entry?_putEntry_of_ne hkey]
        exact h.imp_left fun h => h.resolve_left hkey

theorem entry?_filter_isReplaced (h : ¬ isReplaced overrides (.text name) = true) :
    Value.entry? (entries.filter fun e => !isReplaced overrides e.1) name = Value.entry? entries name := by
  unfold Value.entry?
  rw [List.find?_filter]
  congr 2
  funext e
  by_cases hname : e.1.sameKey (.text name) = true
  · rw [Value.sameKey_text.mp hname, Bool.eq_false_iff.mpr h]
    simp
  · simp [hname]

/-- A key names a field. -/
def IsField (key : Value) : Prop := ∃ name ∈ fieldNames, key = .text name

theorem extraIssue_eq_none_iff : extraIssue key = none ↔ IsField key := by
  constructor
  · intro h
    cases key with
    | text name =>
        refine ⟨name, List.contains_iff_mem.mp (Decidable.byContradiction fun hnot => ?_), rfl⟩
        rw [extraIssue, if_neg hnot] at h
        cases h
    | _ => cases h
  · rintro ⟨name, hname, rfl⟩
    rw [extraIssue, if_pos (List.contains_iff_mem.mpr hname)]

theorem forall_isField_putEntry : (∀ e ∈ Value.putEntry entries key value, IsField e.1) ↔
    (∀ e ∈ entries, IsField e.1) ∧ IsField key := by
  unfold Value.putEntry
  split
  next hany =>
    have hkeys : (∀ e ∈ entries.map fun e => if e.1.sameKey key then (e.1, value) else e, IsField e.1) ↔
        ∀ e ∈ entries, IsField e.1 := by
      rw [List.forall_mem_map]
      simp only [apply_ite Prod.fst, ite_self]
    refine hkeys.trans (iff_self_and.mpr fun hfields => ?_)
    obtain ⟨e, he, hsame⟩ := List.any_eq_true.mp hany
    obtain ⟨name, hname, heq⟩ := hfields e he
    rw [heq, Value.text_sameKey] at hsame
    exact ⟨name, hname, hsame⟩
  next => rw [List.forall_mem_append, List.forall_mem_singleton]

theorem forall_isField_replaced : (∀ e ∈ replaced entries overrides, IsField e.1) ↔
    (∀ e ∈ entries, IsField e.1) ∧ ∀ r ∈ overrides, r.2 ≠ .null → IsField r.1 := by
  induction overrides generalizing entries with
  | nil => simp [replaced]
  | cons r overrides ih =>
      obtain ⟨key, value⟩ := r
      rw [List.forall_mem_cons]
      by_cases hvalue : value = .null
      · subst hvalue
        rw [replaced_cons_null, ih]
        simp
      · rw [replaced_cons hvalue, ih, forall_isField_putEntry, and_assoc]
        simp [hvalue]

/-- Entries that are replaced by fields are fields. -/
theorem forall_isField_filter (h : ∀ r ∈ overrides, r.2 ≠ .null → IsField r.1) :
    (∀ e ∈ entries.filter fun e => !isReplaced overrides e.1, IsField e.1) ↔ ∀ e ∈ entries, IsField e.1 := by
  refine ⟨fun hrest e he => ?_, fun hall e he => hall e (List.mem_filter.mp he).1⟩
  by_cases hreplaced : isReplaced overrides e.1 = true
  · obtain ⟨r, hr, hsame⟩ := List.any_eq_true.mp hreplaced
    obtain ⟨key, value⟩ := r
    have hvalue : value ≠ .null := by
      rintro rfl
      exact Bool.false_ne_true hsame
    obtain ⟨name, hname, rfl⟩ := h _ hr hvalue
    refine ⟨name, hname, Value.sameKey_text.mp ?_⟩
    cases value with
    | null => exact absurd rfl hvalue
    | _ => exact hsame
  · exact hrest e (List.mem_filter.mpr ⟨he, by simpa using hreplaced⟩)

end Replaced

section Fields

variable {entries : List (Value × Value)} {o : Options}

theorem field_eq_ok_iff {α : Type} {name : String} {default a : α} {read : Value → Except Fault α} :
    field entries name default read = .ok a ↔ (Value.entry? entries name = none ∧ default = a) ∨
      ∃ v, Value.entry? entries name = some v ∧ read v = .ok a := by
  unfold field
  split
  next hnone => simp [hnone]
  next v hsome =>
    rw [hsome]
    cases hread : read v with
    | ok b => simp [hread]
    | error fault => simp [hread]

/-- The entries of options: every field is there as it should be or keeps its default, and nothing else is there. -/
theorem ofEntries_eq_ok_iff : ofEntries entries = .ok o ↔
    field entries "attr" ⟨({} : Options).attr, ({} : Options).attr_plain⟩ attrOf = .ok ⟨o.attr, o.attr_plain⟩ ∧
    field entries "strategy" ({} : Options).strategy strategyOf = .ok o.strategy ∧
    field entries "prefix" ({} : Options).idPrefix textOf = .ok o.idPrefix ∧
    field entries "overwrite" ({} : Options).overwrite flagOf = .ok o.overwrite ∧
    field entries "selector" ({} : Options).selector selectorOf = .ok o.selector ∧
    field entries "include" ({} : Options).included namesOf = .ok o.included ∧
    field entries "exclude" ({} : Options).excluded namesOf = .ok o.excluded ∧
    ∀ e ∈ entries, IsField e.1 := by
  have hextras : (entries.filterMap fun e => extraIssue e.1) = [] ↔ ∀ e ∈ entries, IsField e.1 := by
    simp only [List.filterMap_eq_nil_iff, extraIssue_eq_none_iff]
  rw [← hextras, ofEntries]
  dsimp only
  constructor
  · intro h
    split at h
    next hattr hstrategy hprefix hoverwrite hselector hincluded hexcluded hextras =>
      obtain rfl := Except.ok.inj h
      exact ⟨hattr, hstrategy, hprefix, hoverwrite, hselector, hincluded, hexcluded, hextras⟩
    next => cases h
  · rintro ⟨hattr, hstrategy, hprefix, hoverwrite, hselector, hincluded, hexcluded, hextras⟩
    rw [hattr, hstrategy, hprefix, hoverwrite, hselector, hincluded, hexcluded, hextras]

end Fields

end Options

end MarkupIds
