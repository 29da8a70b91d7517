import MarkupIds.Xml.Assign
import MarkupIds.Proofs.Xml.Retoken

/-! Start tags that are written anew. A start tag with its id is read again as one token, whatever follows it, and it
differs from the old one in nothing but its attribute for ids. -/

namespace MarkupIds.Xml

namespace StartTag

/-- The attribute that is written for an id. -/
def idAttribute (attr id : List Char) : WrittenAttribute := ⟨[' '], attr, ['='], '"', Markup.escape id⟩

/-- The attributes that stay when an id is written. -/
def kept (o : Options) (t : StartTag) : List WrittenAttribute :=
  if o.overwrite then t.attributes.filter (·.name != o.attr) else t.attributes

/-- `t'` is the start tag `t` with an id. -/
structure CarriesId (o : Options) (id : List Char) (t t' : StartTag) : Prop where
  name : t'.name = t.name
  tail : t'.tail = t.tail
  attributes : t'.attributes = t.kept o ++ [idAttribute o.attr id]
  text : t'.text = '<' :: (t.name ++ (t.kept o).flatMap WrittenAttribute.text ++
    Markup.written o.attr (Markup.escape id) ++ t.tail)
  once : o.overwrite = true ∨ o.admits (String.ofList t.name) (Progress.existing? o t) = true →
    t'.attributes.filter (·.name == o.attr) = [idAttribute o.attr id]
  read : ∀ rest, Token.read? (t'.text ++ rest) = some (.opening t', rest)

variable {o : Options} {t : StartTag}

theorem text_idAttribute (attr id : List Char) :
    (idAttribute attr id).text = Markup.written attr (Markup.escape id) := by
  simp [idAttribute, WrittenAttribute.text, Markup.written]

/-- A tag without a value for the id has no attribute of that name. -/
theorem name_ne_of_existing?_eq_none (h : Progress.existing? o t = none) :
    ∀ a ∈ t.attributes, (a.name == o.attr) = false := by
  intro a ha
  rw [Progress.existing?, findAttribute, Option.map_eq_none_iff, List.find?_eq_none] at h
  have hnot := h _ (List.mem_map_of_mem ha)
  simpa using hnot

/-- What stays has another name than the attribute for ids, in a tag that is accepted. -/
theorem filter_kept (h : o.overwrite = true ∨ o.admits (String.ofList t.name) (Progress.existing? o t) = true) :
    (t.kept o).filter (·.name == o.attr) = [] := by
  rw [List.filter_eq_nil_iff, kept]
  intro a ha
  cases hoverwrite : o.overwrite with
  | true =>
      rw [hoverwrite, if_pos rfl] at ha
      simpa using (List.mem_filter.mp ha).2
  | false =>
      rw [hoverwrite, if_neg Bool.false_ne_true] at ha
      have hkeep : ¬ o.overwrite = true := by rw [hoverwrite]; exact Bool.false_ne_true
      have hnone := (Options.overwrite_or_eq_none_of_admits (h.resolve_left hkeep)).resolve_left hkeep
      simpa using name_ne_of_existing?_eq_none hnone a ha

theorem Proper.carriesId (ht : t.Proper) (o : Options) (id : List Char) :
    t.CarriesId o id (t.withId o.overwrite o.attr id) := by
  have hattributes : (t.withId o.overwrite o.attr id).attributes = t.kept o ++ [idAttribute o.attr id] := rfl
  constructor
  case name => rfl
  case tail => rfl
  case attributes => exact hattributes
  case text =>
    have hname : (t.withId o.overwrite o.attr id).name = t.name := rfl
    have htail : (t.withId o.overwrite o.attr id).tail = t.tail := rfl
    rw [text, hattributes, hname, htail, List.flatMap_append, List.flatMap_singleton, text_idAttribute,
      ← List.append_assoc t.name]
  case once =>
    intro h
    rw [hattributes, List.filter_append, filter_kept h, List.nil_append]
    simp [idAttribute]
  case read =>
    intro rest
    exact (Token.Found.opening rest (ht.withId o.attr_plain o.overwrite id)).read?_eq

end StartTag

namespace Token

theorem proper_of_read? {s rest : List Char} {t : StartTag} (h : read? s = some (.opening t, rest)) : t.Proper := by
  unfold read? at h
  split at h
  next => cases h
  next =>
    split at h
    next => cases h
    next =>
      split at h
      next => cases h
      next =>
        obtain ⟨⟨tag, rest'⟩, htag, heq⟩ := Option.map_eq_some_iff.mp h
        cases heq
        exact StartTag.proper_of_read? htag
  next => cases h

theorem proper_of_mem_listFrom {fuel : Nat} {s : List Char} {t : StartTag} (h : .opening t ∈ (listFrom fuel s).1) :
    t.Proper := by
  induction fuel generalizing s with
  | zero => cases h
  | succ fuel ih =>
      rw [listFrom] at h
      cases hread : read? s with
      | none =>
          rw [hread] at h
          cases h
      | some found =>
          obtain ⟨token, rest⟩ := found
          rw [hread] at h
          rcases List.mem_cons.mp h with rfl | h
          · exact proper_of_read? hread
          · exact ih h

end Token

namespace Progress

/-- A pass goes on from `p` to `p'` over a start tag: it writes the tag as it is or, if it is accepted, with a
generated id. -/
def Writes (o : Options) (t : StartTag) (p p' : Progress) : Prop :=
  p'.output = .opening t :: p.output ∨
    o.admits (String.ofList t.name) (existing? o t) = true ∧ ∃ element,
      p'.output = .opening (t.withId o.overwrite o.attr (p.generator.generate element o).1.toList) :: p.output

theorem writes_openTag {o : Options} {around : Surroundings} {p p' : Progress} {t : StartTag}
    (h : p.openTag o around t = .ok p') : p.Writes o t p' := by
  unfold openTag at h
  dsimp only at h
  split at h
  next =>
    split at h
    next => cases h
    next =>
      split at h
      next hadmits =>
        obtain rfl := Except.ok.inj h
        exact .inr ⟨hadmits, _, rfl⟩
      next =>
        obtain rfl := Except.ok.inj h
        exact .inl rfl
  next =>
    obtain rfl := Except.ok.inj h
    exact .inl rfl

/-- A start tag of any text can be written anew for any id, and is then read again as it is meant, whatever follows it.
What a pass over the text writes for it is the tag itself or, if it is accepted, such a tag with an id. -/
theorem openTag_rewrites {source : List Char} {t : StartTag} (h : .opening t ∈ (Token.list source).1) (o : Options) :
    (∀ id, t.CarriesId o id (t.withId o.overwrite o.attr id)) ∧
      ∀ around (p p' : Progress), p.openTag o around t = .ok p' → p.Writes o t p' := by
  have ht : t.Proper := Token.proper_of_mem_listFrom h
  constructor
  · intro id
    exact ht.carriesId o id
  · intro around p p' hstep
    exact writes_openTag hstep

/-- A start tag with brackets and quotes in names and values. -/
theorem openTag_rewrites_quoted :
    let source := "<a b\"<='x/>\"' id=\"1\">t</a>".toList
    let t : StartTag :=
      ⟨['a'], [⟨[' '], "b\"<".toList, ['='], '\'', "x/>\"".toList⟩, ⟨[' '], ['i', 'd'], ['='], '"', ['1']⟩], ['>']⟩
    let o : Options := { attr := ['i', 'd'], overwrite := true, idPrefix := "\"/>" }
    .opening t ∈ (Token.list source).1 ∧ (∀ id, t.CarriesId o id (t.withId o.overwrite o.attr id)) ∧
      ∀ around (p p' : Progress), p.openTag o around t = .ok p' → p.Writes o t p' := by
  intro source t o
  have h : .opening t ∈ (Token.list source).1 := by decide +kernel
  exact ⟨h, openTag_rewrites h o⟩

end Progress

end MarkupIds.Xml
