import MarkupIds.Proofs.Xml.Openings
import MarkupIds.Proofs.Xml.Value

/-! The attributes of a start tag, read one after another: the reader of documents finds those that the
reader of tokens finds, and what it makes of one depends neither on the others nor on what follows. -/

namespace MarkupIds.Xml

open MarkupIds.Text (isBlank)

/-- White space in the wide sense that may stand in a name. -/
def oghamSpace : Char := '\u1680'

theorem isBlank_of_isNameChar {c : Char} (hc : isNameChar c = true) (hne : c ≠ oghamSpace) : isBlank c = false := by
  have hcode : c.toNat ≠ 0x1680 := fun h => hne (by rw [← Char.ofNat_toNat c, h]; rfl)
  by_contra hblank
  rw [Bool.not_eq_false] at hblank
  simp only [isNameChar, isLocalChar, isLocalStart, within, nameStartRanges, nameFurtherRanges, List.any_cons,
    List.any_nil, Bool.or_eq_true, Bool.and_eq_true, decide_eq_true_eq, beq_iff_eq, Bool.or_false] at hc
  simp only [isBlank, Bool.or_eq_true, Bool.and_eq_true, decide_eq_true_eq, beq_iff_eq] at hblank
  obtain rfl | hc := hc
  · revert hblank
    decide
  · omega

theorem isControl_of_isNameChar {c : Char} (hc : isNameChar c = true) : Reading.isControl c = false := by
  by_contra hcontrol
  rw [Bool.not_eq_false] at hcontrol
  simp only [isNameChar, isLocalChar, isLocalStart, within, nameStartRanges, nameFurtherRanges, List.any_cons,
    List.any_nil, Bool.or_eq_true, Bool.and_eq_true, decide_eq_true_eq, beq_iff_eq, Bool.or_false] at hc
  simp only [Reading.isControl, Bool.and_eq_true, decide_eq_true_eq] at hcontrol
  obtain rfl | hc := hc
  · revert hcontrol
    decide
  · omega

namespace Reading

variable {α β : Type} {s m t : State} {A B : List Char → List Char → Prop}

/-- A reading that is done again and passes something. -/
def Takes (A : List Char → List Char → Prop) (x : Reading α) : Prop := ∀ s a t, Undeclared s.docType →
  x s = .ok (a, t) → Repeats A (fun _ => x) s a t ∧ t.rest.length < s.rest.length

namespace Takes

theorem steady {x : Reading α} (h : Takes A x) : Steady A x := fun s a t hs hx => (h s a t hs hx).1

theorem after {x : Reading α} {f : α → Reading β} (hx : Steady Next x) (hf : ∀ a, Takes B (f a)) : Takes B (x >>= f) :=
  fun s b t hs h => by
    obtain ⟨a, m, hfirst, hrest⟩ := bind_eq_ok.mp h
    have hfirst := hx s a m hs hfirst
    obtain ⟨hmore, hlength⟩ := hf a m b t (hfirst.undeclared hs) hrest
    refine ⟨hfirst.bind hmore (extends_next fun heq => by rw [heq] at hlength; omega), ?_⟩
    obtain ⟨q, hq, -⟩ := hfirst
    rw [hq, List.length_append]
    omega

theorem before [IsAhead A] {x : Reading α} {f : α → Reading β} (hx : Takes A x) (hf : ∀ a, Steady A (f a)) :
    Takes A (x >>= f) := fun s b t hs h => by
  obtain ⟨a, m, hfirst, hrest⟩ := bind_eq_ok.mp h
  obtain ⟨hfirst, hlength⟩ := hx s a m hs hfirst
  have hmore := hf a m b t (hfirst.undeclared hs) hrest
  refine ⟨hfirst.bind hmore extends_self, ?_⟩
  obtain ⟨q, hq, -⟩ := hmore
  rw [hq, List.length_append] at hlength
  omega

theorem ite {c : Prop} [Decidable c] {x y : Reading α} (hx : Takes A x) (hy : Takes A y) :
    Takes A (if c then x else y) := by
  split <;> assumption

theorem fail (cause : Cause) : Takes A (Reading.fail cause : Reading α) := fun _ _ _ _ h => absurd h fail_eq_ok

theorem fail_bind (cause : Cause) (f : α → Reading β) : Takes A (Reading.fail cause >>= f) := fun _ _ _ _ h => by
  rw [bind_fail_apply] at h
  exact absurd h fail_eq_ok

theorem value : Takes Whatever value := fun s v t hs h => by
  refine ⟨Steady.value s v t hs h, ?_⟩
  obtain ⟨quote, run, -, hrun, -⟩ := value_eq_ok h
  rw [hrun]
  simp
  omega

end Takes

section Attributes

theorem Steady.checkSpace (g : Given) : Steady A (checkSpace g) := by
  unfold Reading.checkSpace
  exact ((note _).ite (.pure _)).ite (.pure _)

theorem Takes.given (rules : List AttributeRule) : Takes Whatever (given rules) := by
  unfold Reading.given
  refine after .qualifiedName fun found => ?_
  obtain ⟨owner, name⟩ := found
  have hvalue : Takes Whatever (do
      let _ ← Reading.spaces
      Reading.expect ['='] (.attributeWithoutValue (String.ofList name))
      let _ ← Reading.spaces
      let value ← Reading.value
      let written : Given := { owner, name, value }
      let isTokens := (rules.find? fun r => r.name == written.fullName).any (·.isTokens)
      let g := if isTokens then { written with value := tokens written.value } else written
      Reading.checkSpace g
      return g : Reading Given) :=
    after .spaces fun _ => after (.expect _ _) fun _ => after .spaces fun _ =>
      value.before fun v => (Steady.checkSpace _).bind fun _ => .pure _
  exact (fail_bind _ _).ite hvalue

theorem Steady.bindBound [IsAhead A] (bound : Scope) (name uri : List Char) : Steady A (Reading.bind bound name uri) := by
  unfold Reading.bind
  dsimp only
  split
  · exact (Steady.fail _).bind fun _ => .pure _
  · exact .pure _

theorem Steady.bindDefault [IsAhead A] (bound : Scope) (uri : List Char) : Steady A (bindDefault bound uri) := by
  unfold Reading.bindDefault
  have hrest : Steady A (if uri == xmlNamespace then do
        Reading.note .xmlNamespaceAsDefault
        return bound
      else if uri == xmlnsNamespace then do
        Reading.note .xmlnsNamespaceReused
        return bound
      else Reading.bind bound [] uri : Reading Scope) :=
    ((note _).bind fun _ => .pure _).ite (((note _).bind fun _ => .pure _).ite (.bindBound _ _ _))
  dsimp only
  split
  · exact hrest
  split
  · exact (note _).bind fun _ => hrest
  split
  · exact (note _).bind fun _ => hrest
  · exact hrest

theorem Steady.bindName [IsAhead A] (bound : Scope) (name uri : List Char) : Steady A (bindName bound name uri) := by
  unfold Reading.bindName
  dsimp only
  split
  · split
    · exact (note _).bind fun _ => .pure _
    · exact .pure _
  repeat' first
    | exact (Steady.note _).bind fun _ => .pure _
    | exact (Steady.note _).bind fun _ => .bindBound _ _ _
    | exact .bindBound _ _ _
    | split

theorem Steady.bindGiven [IsAhead A] (bound : Scope) (g : Given) : Steady A (bindGiven bound g) := by
  unfold Reading.bindGiven
  split
  · exact .pure _
  · exact .bindDefault _ _
  · exact .bindName _ _ _

theorem fullName_eq (g : Given) : g.fullName = fullName g.owner g.name := rfl

/-- An attribute is written with its name, an equals sign and a value in quotes. -/
theorem given_text {rules : List AttributeRule} {g : Given} (h : given rules s = .ok (g, t)) :
    g.fullName ≠ [] ∧ (∀ c ∈ g.fullName, isNameChar c = true) ∧ ∃ before behind quote run,
      s.rest = g.fullName ++ before ++ '=' :: (behind ++ quote :: (run ++ quote :: t.rest)) ∧
        (∀ c ∈ before, isSpace c = true) ∧ (∀ c ∈ behind, isSpace c = true) ∧ (quote = '"' ∨ quote = '\'') ∧
          quote ∉ run := by
  unfold given at h
  obtain ⟨⟨owner, name⟩, m, hname, h⟩ := bind_eq_ok.mp h
  obtain ⟨hrest, hchars, -, -⟩ := ran_qualifiedName hname
  dsimp only at h
  split at h
  next => exact absurd h fail_eq_ok
  next hne =>
    obtain ⟨b₁, m₁, hspaces, h⟩ := bind_eq_ok.mp h
    obtain ⟨u, m₂, hequals, h⟩ := bind_eq_ok.mp h
    obtain ⟨b₂, m₃, hspaces', h⟩ := bind_eq_ok.mp h
    obtain ⟨v, m₄, hvalue, h⟩ := bind_eq_ok.mp h
    obtain ⟨u', m₅, hcheck, h⟩ := bind_eq_ok.mp h
    obtain ⟨hg, rfl⟩ := pure_eq_ok.mp h
    obtain ⟨before, hbefore, hblank, -⟩ := spaces_eq hspaces
    obtain ⟨behind, hbehind, hblank', -⟩ := spaces_eq hspaces'
    obtain ⟨quote, run, hquote, hrun, hnot⟩ := value_eq_ok hvalue
    have hfull : g.fullName = fullName owner name := by
      rw [← hg]
      split <;> rfl
    rw [hfull]
    refine ⟨fun hnil => hne (List.isEmpty_iff.mpr (fullName_eq_nil hnil)), hchars, before, behind, quote, run, ?_, hblank,
      hblank', hquote, hnot⟩
    rw [hrest, hbefore, expect_eq_ok hequals, hbehind, hrun, Keeps.checkSpace _ _ _ _ hcheck]
    simp

/-- The attribute that has been read, as the reader of tokens finds it behind some white space. -/
theorem exists_written {rules : List AttributeRule} {g : Given} {lead : List Char} (hlead : lead ≠ [])
    (hblank : ∀ c ∈ lead, isSpace c = true) (hogham : oghamSpace ∉ g.fullName) (h : given rules s = .ok (g, t)) :
    ∃ a : WrittenAttribute, a.Proper ∧ a.lead = lead ∧ a.name = g.fullName ∧ lead ++ s.rest = a.text ++ t.rest := by
  obtain ⟨hne, hchars, before, behind, quote, run, hrest, hbefore, hbehind, hquote, hnot⟩ := given_text h
  refine ⟨⟨lead, g.fullName, before ++ '=' :: behind, quote, run⟩, ?_, rfl, rfl, ?_⟩
  · refine ⟨hlead, fun c hc => isBlank_of_isSpace (hblank c hc), hne, fun c hc => ?_,
      ⟨before, behind, rfl, fun c hc => isBlank_of_isSpace (hbefore c hc), fun c hc => isBlank_of_isSpace (hbehind c hc)⟩,
      hquote, hnot⟩
    have hname := hchars c hc
    have hblank := isBlank_of_isNameChar hname fun heq => hogham (heq ▸ hc)
    have hmarks : c ≠ '=' ∧ c ≠ '/' ∧ c ≠ '>' := by
      refine ⟨?_, ?_, ?_⟩ <;>
        · rintro rfl
          exact absurd hname (by decide)
    simp [WrittenAttribute.isNameChar, hblank, hmarks]
  · rw [hrest, WrittenAttribute.text]
    simp

end Attributes

end Reading

end MarkupIds.Xml
