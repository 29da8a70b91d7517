import MarkupIds.Proofs.Grammar.Extent

/-! What a pattern answers, apart from fuel: more of it changes no answer, and where every rule takes something off the
text before it comes back to itself, there is a bound that is always enough. -/

namespace MarkupIds.Grammar

namespace Pattern

variable {Rule Kind : Type} {grammar : Rule → Pattern Rule Kind} {a b : Pattern Rule Kind}
  {s t : Reached Kind} {r : Option (Reached Kind)}

theorem match?_succ {fuel : Nat} (h : match? grammar fuel a s = some r) : match? grammar (fuel + 1) a s = some r := by
  induction fuel generalizing a s r with
  | zero => cases h
  | succ fuel ih =>
      cases a with
      | seq a b =>
          rw [match?] at h ⊢
          cases ha : match? grammar fuel a s with
          | none =>
              rw [ha] at h
              cases h
          | some answer =>
              rw [ih ha]
              rw [ha] at h
              cases answer with
              | none => exact h
              | some t => exact ih h
      | alt a b =>
          rw [match?] at h ⊢
          cases ha : match? grammar fuel a s with
          | none =>
              rw [ha] at h
              cases h
          | some answer =>
              rw [ih ha]
              rw [ha] at h
              cases answer with
              | none => exact ih h
              | some t => exact h
      | many a =>
          rw [match?] at h ⊢
          cases ha : match? grammar fuel a s with
          | none =>
              rw [ha] at h
              cases h
          | some answer =>
              rw [ih ha]
              rw [ha] at h
              cases answer with
              | none => exact h
              | some t =>
                  simp only at h ⊢
                  split at h
                  next hsame =>
                    rw [if_pos hsame]
                    exact h
                  next hsame =>
                    rw [if_neg hsame]
                    exact ih h
      | «unless» a =>
          rw [match?] at h ⊢
          cases ha : match? grammar fuel a s with
          | none =>
              rw [ha] at h
              cases h
          | some answer =>
              rw [ih ha]
              rw [ha] at h
              exact h
      | token kind a =>
          rw [match?] at h ⊢
          cases ha : match? grammar fuel a s with
          | none =>
              rw [ha] at h
              cases h
          | some answer =>
              rw [ih ha]
              rw [ha] at h
              exact h
      | branch kind a =>
          rw [match?] at h ⊢
          cases ha : match? grammar fuel a { s with found := [] } with
          | none =>
              rw [ha] at h
              cases h
          | some answer =>
              rw [ih ha]
              rw [ha] at h
              exact h
      | rule r =>
          rw [match?] at h ⊢
          exact ih h
      | _ =>
          rw [match?] at h ⊢
          exact h

theorem match?_mono {fuel more : Nat} (hle : fuel ≤ more) (h : match? grammar fuel a s = some r) :
    match? grammar more a s = some r := by
  induction hle with
  | refl => exact h
  | step _ ih => exact match?_succ ih

end Pattern

open Pattern

variable {Rule Kind : Type} {grammar : Rule → Pattern Rule Kind} {a b : Pattern Rule Kind}
  {s t : Reached Kind} {r : Option (Reached Kind)}

/-- With enough fuel the pattern answers so: it does not match, or it matches up to what has been reached. -/
def Answers (grammar : Rule → Pattern Rule Kind) (a : Pattern Rule Kind) (s : Reached Kind)
    (r : Option (Reached Kind)) : Prop := ∃ fuel, match? grammar fuel a s = some r

namespace Answers

theorem of_match? {fuel : Nat} (h : match? grammar fuel a s = some r) : Answers grammar a s r := ⟨fuel, h⟩

/-- Two answers with the same fuel. -/
theorem both {t : Reached Kind} {q : Option (Reached Kind)} (ha : Answers grammar a s r) (hb : Answers grammar b t q) :
    ∃ fuel, match? grammar fuel a s = some r ∧ match? grammar fuel b t = some q := by
  obtain ⟨fuel, ha⟩ := ha
  obtain ⟨more, hb⟩ := hb
  exact ⟨max fuel more, match?_mono (Nat.le_max_left _ _) ha, match?_mono (Nat.le_max_right _ _) hb⟩

theorem unique {q : Option (Reached Kind)} (h : Answers grammar a s r) (h' : Answers grammar a s q) : r = q := by
  obtain ⟨fuel, hr, hq⟩ := h.both h'
  exact Option.some.inj (hr.symm.trans hq)

theorem empty : Answers grammar .empty s (some s) := ⟨1, rfl⟩

theorem char {p : Char → Bool} {c : Char} {rest : List Char} (hrest : s.rest = c :: rest) (hc : p c = true) :
    Answers grammar (.char p) s (some { s with offset := s.offset + 1, rest }) := by
  refine ⟨1, ?_⟩
  simp only [match?, hrest, hc, if_pos]

theorem char_none {p : Char → Bool} (h : ∀ c, s.rest.head? = some c → p c = false) :
    Answers grammar (.char p) s none := by
  refine ⟨1, ?_⟩
  cases hrest : s.rest with
  | nil => simp only [match?, hrest]
  | cons c rest =>
      have hc : p c = false := h c (by rw [hrest]; rfl)
      simp [match?, hrest, hc]

theorem run (p : Char → Bool) : Answers grammar (.run p) s
    (some { s with offset := s.offset + (s.rest.takeWhile p).length, rest := s.rest.dropWhile p }) := ⟨1, rfl⟩

theorem text {literal rest : List Char} (h : s.rest = literal ++ rest) :
    Answers grammar (.text literal) s (some { s with offset := s.offset + literal.length, rest }) := by
  refine ⟨1, ?_⟩
  have hprefix : literal.isPrefixOf s.rest = true := List.isPrefixOf_iff_prefix.mpr ⟨rest, h.symm⟩
  rw [match?, if_pos hprefix, h, List.drop_left]

theorem text_none {literal : List Char} (h : literal.isPrefixOf s.rest = false) :
    Answers grammar (.text literal) s none := by
  refine ⟨1, ?_⟩
  rw [match?, if_neg (Bool.not_eq_true _ ▸ h)]

theorem seq (ha : Answers grammar a s (some t)) (hb : Answers grammar b t r) : Answers grammar (.seq a b) s r := by
  obtain ⟨fuel, ha, hb⟩ := ha.both hb
  exact ⟨fuel + 1, by rw [match?, ha]; exact hb⟩

theorem seq_none (ha : Answers grammar a s none) : Answers grammar (.seq a b) s none := by
  obtain ⟨fuel, ha⟩ := ha
  exact ⟨fuel + 1, by rw [match?, ha]⟩

/-- A sequence answers what its parts do. -/
theorem of_seq (h : Answers grammar (.seq a b) s r) :
    Answers grammar a s none ∧ r = none ∨ ∃ t, Answers grammar a s (some t) ∧ Answers grammar b t r := by
  obtain ⟨fuel, h⟩ := h
  cases fuel with
  | zero => cases h
  | succ fuel =>
      rw [match?] at h
      split at h
      next t ht => exact .inr ⟨t, ⟨fuel, ht⟩, fuel, h⟩
      next answer hanswer =>
        cases r with
        | none => exact .inl ⟨⟨fuel, h⟩, rfl⟩
        | some u => exact absurd h (hanswer u)

theorem left (ha : Answers grammar a s (some t)) : Answers grammar (.alt a b) s (some t) := by
  obtain ⟨fuel, ha⟩ := ha
  exact ⟨fuel + 1, by rw [match?, ha]⟩

theorem right (ha : Answers grammar a s none) (hb : Answers grammar b s r) : Answers grammar (.alt a b) s r := by
  obtain ⟨fuel, ha, hb⟩ := ha.both hb
  exact ⟨fuel + 1, by rw [match?, ha]; exact hb⟩

theorem many_none (ha : Answers grammar a s none) : Answers grammar (.many a) s (some s) := by
  obtain ⟨fuel, ha⟩ := ha
  exact ⟨fuel + 1, by rw [match?, ha]⟩

theorem many_last (ha : Answers grammar a s (some t)) (hsame : t.offset = s.offset) :
    Answers grammar (.many a) s (some t) := by
  obtain ⟨fuel, ha⟩ := ha
  exact ⟨fuel + 1, by rw [match?, ha]; exact if_pos (beq_iff_eq.mpr hsame)⟩

theorem many_more (ha : Answers grammar a s (some t)) (hfurther : t.offset ≠ s.offset)
    (hmany : Answers grammar (.many a) t r) : Answers grammar (.many a) s r := by
  obtain ⟨fuel, ha, hmany⟩ := ha.both hmany
  refine ⟨fuel + 1, ?_⟩
  rw [match?, ha]
  exact (if_neg (fun hsame => hfurther (beq_iff_eq.mp hsame))).trans hmany

theorem «unless» (ha : Answers grammar a s none) : Answers grammar (.unless a) s (some s) := by
  obtain ⟨fuel, ha⟩ := ha
  exact ⟨fuel + 1, by rw [match?, ha]⟩

theorem unless_none (ha : Answers grammar a s (some t)) : Answers grammar (.unless a) s none := by
  obtain ⟨fuel, ha⟩ := ha
  exact ⟨fuel + 1, by rw [match?, ha]⟩

theorem given (p : List Char → Bool) : Answers grammar (.given p) s (if p s.rest then some s else none) := by
  refine ⟨1, ?_⟩
  rw [match?]
  split <;> rfl

theorem flagged : Answers grammar .flagged s (if s.flag then some s else none) := by
  refine ⟨1, ?_⟩
  rw [match?]
  split <;> rfl

theorem flag (mark : Bool) : Answers grammar (.flag mark) s (some { s with flag := mark }) := ⟨1, rfl⟩

theorem token (kind : Kind) (ha : Answers grammar a s r) : Answers grammar (.token kind a) s (r.map fun t =>
    { t with found := .leaf kind s.offset t.offset (s.rest.take (t.offset - s.offset)) :: s.found }) := by
  obtain ⟨fuel, ha⟩ := ha
  refine ⟨fuel + 1, ?_⟩
  rw [match?, ha]
  cases r <;> rfl

theorem branch (kind : Kind) (ha : Answers grammar a { s with found := [] } r) :
    Answers grammar (.branch kind a) s (r.map fun t =>
      { t with found := .branch kind s.offset t.offset t.found.reverse :: s.found }) := by
  obtain ⟨fuel, ha⟩ := ha
  refine ⟨fuel + 1, ?_⟩
  rw [match?, ha]
  cases r <;> rfl

theorem rule {name : Rule} (ha : Answers grammar (grammar name) s r) : Answers grammar (.rule name) s r := by
  obtain ⟨fuel, ha⟩ := ha
  exact ⟨fuel + 1, by rw [match?]; exact ha⟩

end Answers

/-! The depth of a match. Rules that come back to themselves have taken something off the text in between, so
each character allows for as much depth as a pattern can reach without one. -/

namespace Pattern

/-- The pattern may match and take nothing. -/
def mayStay (stays : Rule → Bool) : Pattern Rule Kind → Bool
  | .char _ => false
  | .text literal => literal.isEmpty
  | .seq a b => a.mayStay stays && b.mayStay stays
  | .alt a b => a.mayStay stays || b.mayStay stays
  | .token _ a => a.mayStay stays
  | .branch _ a => a.mayStay stays
  | .rule r => stays r
  | _ => true

/-- How deep a match goes before it takes the first character. -/
def depth (stays : Rule → Bool) (deep : Rule → Nat) : Pattern Rule Kind → Nat
  | .seq a b => 1 + max (a.depth stays deep) (if a.mayStay stays then b.depth stays deep else 0)
  | .alt a b => 1 + max (a.depth stays deep) (b.depth stays deep)
  | .many a => 1 + a.depth stays deep
  | .unless a => 1 + a.depth stays deep
  | .token _ a => 1 + a.depth stays deep
  | .branch _ a => 1 + a.depth stays deep
  | .rule r => 1 + deep r
  | _ => 1

/-- No part that stands behind another goes deeper than `bound`. -/
def isBounded (stays : Rule → Bool) (deep : Rule → Nat) (bound : Nat) : Pattern Rule Kind → Bool
  | .seq a b => a.isBounded stays deep bound && b.isBounded stays deep bound && decide (b.depth stays deep ≤ bound)
  | .alt a b => a.isBounded stays deep bound && b.isBounded stays deep bound
  | .many a => a.isBounded stays deep bound
  | .unless a => a.isBounded stays deep bound
  | .token _ a => a.isBounded stays deep bound
  | .branch _ a => a.isBounded stays deep bound
  | _ => true

end Pattern

/-- What rules are said to do is what they do: whether they take something for sure, and how deep they go before they
have taken something. -/
structure Founded (grammar : Rule → Pattern Rule Kind) (stays : Rule → Bool) (deep : Rule → Nat) (bound : Nat) :
    Prop where
  bound_pos : 0 < bound
  stays_of_mayStay : ∀ r, (grammar r).mayStay stays = true → stays r = true
  depth_le : ∀ r, (grammar r).depth stays deep ≤ deep r
  bounded : ∀ r, (grammar r).isBounded stays deep bound = true

namespace Founded

variable {stays : Rule → Bool} {deep : Rule → Nat} {bound : Nat}

theorem length_le {fuel : Nat} (h : match? grammar fuel a s = some (some t)) : t.rest.length ≤ s.rest.length := by
  obtain ⟨taken, -, hrest, -⟩ := advances_of_match? h
  rw [hrest, List.length_append]
  exact Nat.le_add_left _ _

/-- Where a pattern takes something for sure, less of the text is left. -/
theorem length_lt (h : Founded grammar stays deep bound) {fuel : Nat} (ha : a.mayStay stays = false)
    (ht : match? grammar fuel a s = some (some t)) : t.rest.length < s.rest.length := by
  induction fuel generalizing a s t with
  | zero => cases ht
  | succ fuel ih =>
      cases step_of_match? ht with
      | char hrest _ =>
          rw [hrest]
          exact Nat.lt_succ_self _
      | @text literal _ hprefix =>
          have hlength := hprefix.length_le
          have hpos : 0 < literal.length := by
            cases literal with
            | nil => cases ha
            | cons c literal => exact Nat.succ_pos _
          rw [List.length_drop]
          omega
      | seq hu ht =>
          have hfirst := length_le hu
          have hsecond := length_le ht
          rcases Bool.and_eq_false_iff.mp ha with hstays | hstays
          · have := ih hstays hu
            omega
          · have := ih hstays ht
            omega
      | left ht => exact ih (Bool.or_eq_false_iff.mp ha).1 ht
      | right _ ht => exact ih (Bool.or_eq_false_iff.mp ha).2 ht
      | @token kind a _ u hu => exact ih (a := a) (t := u) ha hu
      | @branch kind a _ u hu => exact ih (a := a) (s := { s with found := [] }) (t := u) ha hu
      | @rule name _ _ hu =>
          have hstays : stays name = false := ha
          refine ih (Bool.eq_false_iff.mpr fun hmay => ?_) hu
          rw [h.stays_of_mayStay name hmay] at hstays
          cases hstays
      | empty => cases ha
      | run => cases ha
      | none => cases ha
      | last => cases ha
      | more => cases ha
      | «unless» => cases ha
      | given => cases ha
      | flagged => cases ha
      | flag => cases ha

theorem depth_pos (stays : Rule → Bool) (deep : Rule → Nat) (a : Pattern Rule Kind) : 0 < a.depth stays deep := by
  cases a <;> simp only [depth] <;> omega

/-- There is an answer where the fuel allows for the depth of the pattern, and for `bound` with every character. -/
theorem match?_ne_none (h : Founded grammar stays deep bound) {fuel : Nat} (ha : a.isBounded stays deep bound = true)
    (hfuel : a.depth stays deep + bound * s.rest.length ≤ fuel) : match? grammar fuel a s ≠ none := by
  induction fuel generalizing a s with
  | zero =>
      have := depth_pos stays deep a
      omega
  | succ fuel ih =>
      have hpos := h.bound_pos
      have hshorter {u : Reached Kind} (hu : u.rest.length < s.rest.length) :
          bound * u.rest.length + bound ≤ bound * s.rest.length := by
        rw [← Nat.mul_succ]
        exact Nat.mul_le_mul_left bound hu
      cases a with
      | seq a b =>
          simp only [isBounded, Bool.and_eq_true, decide_eq_true_eq] at ha
          obtain ⟨⟨hboundedA, hboundedB⟩, hdeep⟩ := ha
          rw [depth] at hfuel
          rw [match?]
          split
          next u hu =>
            refine ih hboundedB ?_
            cases hmay : a.mayStay stays with
            | true =>
                have := Nat.mul_le_mul_left bound (length_le hu)
                rw [if_pos hmay] at hfuel
                omega
            | false =>
                have := hshorter (h.length_lt hmay hu)
                omega
          next => exact ih hboundedA (by omega)
      | alt a b =>
          obtain ⟨hboundedA, hboundedB⟩ := Bool.and_eq_true_iff.mp ha
          rw [depth] at hfuel
          rw [match?]
          split
          next => exact ih hboundedB (by omega)
          next => exact ih hboundedA (by omega)
      | many a =>
          rw [match?]
          have hbounded : a.isBounded stays deep bound = true := ha
          rw [depth] at hfuel
          split
          next u hu =>
            split
            next => exact Option.some_ne_none _
            next hfurther =>
              obtain ⟨taken, -, hrest, hoffset, -⟩ := advances_of_match? hu
              have hlength := congrArg List.length hrest
              rw [List.length_append] at hlength
              have := hshorter (u := u) (by
                have : u.offset ≠ s.offset := fun hsame => hfurther (beq_iff_eq.mpr hsame)
                omega)
              refine ih ha ?_
              rw [depth]
              omega
          next => exact Option.some_ne_none _
          next hnone => exact absurd hnone (ih hbounded (by omega))
      | «unless» a =>
          have hbounded : a.isBounded stays deep bound = true := ha
          rw [depth] at hfuel
          rw [match?]
          split
          next => exact Option.some_ne_none _
          next => exact Option.some_ne_none _
          next hnone => exact absurd hnone (ih hbounded (by omega))
      | token kind a =>
          have hbounded : a.isBounded stays deep bound = true := ha
          rw [depth] at hfuel
          rw [match?]
          split
          next => exact Option.some_ne_none _
          next => exact ih hbounded (by omega)
      | branch kind a =>
          have hbounded : a.isBounded stays deep bound = true := ha
          rw [depth] at hfuel
          rw [match?]
          split
          next => exact Option.some_ne_none _
          next => exact ih (s := { s with found := [] }) hbounded (by simp only; omega)
      | rule name =>
          have := h.depth_le name
          rw [depth] at hfuel
          rw [match?]
          exact ih (h.bounded name) (by omega)
      | char p =>
          rw [match?]
          split
          · split <;> exact Option.some_ne_none _
          · exact Option.some_ne_none _
      | text literal =>
          rw [match?]
          split <;> exact Option.some_ne_none _
      | given p =>
          rw [match?]
          split <;> exact Option.some_ne_none _
      | flagged =>
          rw [match?]
          split <;> exact Option.some_ne_none _
      | _ => exact Option.some_ne_none _

/-- A text that a rule matches as a whole is read so: the fuel for its length is enough. -/
theorem parse?_eq (h : Founded grammar stays deep bound) {start : Rule} {text : List Char}
    (hbound : bound ≤ 1000) (hdeep : deep start < 10000)
    (ha : Answers grammar (.rule start) { rest := text } (some t)) (hrest : t.rest = []) :
    parse? grammar start text = some t.found.reverse := by
  have hfuel : (rule start : Pattern Rule Kind).depth stays deep + bound * text.length ≤ 1000 * (text.length + 10) := by
    have := Nat.mul_le_mul_right text.length hbound
    rw [depth]
    omega
  obtain ⟨r, hr⟩ := Option.ne_none_iff_exists'.mp
    (h.match?_ne_none (s := { rest := text }) (a := .rule start) rfl hfuel)
  obtain rfl := ha.unique (.of_match? hr)
  unfold parse?
  simp only [hr, hrest, List.isEmpty_nil, if_true]

end Founded

end MarkupIds.Grammar
