import MarkupIds.Proofs.Grammar.Extent

/-! What holds behind a match, pattern by pattern, and what kinds of trees the patterns of a grammar can find. -/

namespace MarkupIds.Grammar

variable {Rule Kind : Type} {grammar : Rule → Pattern Rule Kind} {a b : Pattern Rule Kind}
  {P Q R : Reached Kind → Prop}

/-- Every match of the pattern that starts where `P` holds ends where `Q` holds. -/
def Leads (grammar : Rule → Pattern Rule Kind) (a : Pattern Rule Kind) (P Q : Reached Kind → Prop) : Prop :=
  ∀ fuel s t, P s → Pattern.match? grammar fuel a s = some (some t) → Q t

namespace Leads

theorem mono {P' Q' : Reached Kind → Prop} (ha : Leads grammar a P Q) (hP : ∀ s, P' s → P s) (hQ : ∀ s, Q s → Q' s) :
    Leads grammar a P' Q' :=
  fun fuel s t hs ht => hQ t (ha fuel s t (hP s hs) ht)

/-- It is enough to look at what a step of the match comes to. -/
theorem of_step (h : ∀ fuel s t, P s → Pattern.Step grammar fuel a s t → Q t) : Leads grammar a P Q := by
  intro fuel s t hs ht
  cases fuel with
  | zero => cases ht
  | succ fuel => exact h fuel s t hs (Pattern.step_of_match? ht)

theorem empty : Leads grammar .empty P P := by
  apply of_step
  intro fuel s t hs hstep
  cases hstep
  exact hs

theorem char {p : Char → Bool} (h : ∀ s c rest, P s → s.rest = c :: rest → p c = true →
    Q { s with offset := s.offset + 1, rest }) : Leads grammar (.char p) P Q := by
  apply of_step
  intro fuel s t hs hstep
  cases hstep with
  | char hrest hc => exact h s _ _ hs hrest hc

theorem run {p : Char → Bool} (h : ∀ s, P s →
    Q { s with offset := s.offset + (s.rest.takeWhile p).length, rest := s.rest.dropWhile p }) :
    Leads grammar (.run p) P Q := by
  apply of_step
  intro fuel s t hs hstep
  cases hstep
  exact h s hs

theorem seq (ha : Leads grammar a P Q) (hb : Leads grammar b Q R) : Leads grammar (.seq a b) P R := by
  apply of_step
  intro fuel s t hs hstep
  cases hstep with
  | seq hu ht => exact hb fuel _ t (ha fuel s _ hs hu) ht

theorem alt (ha : Leads grammar a P Q) (hb : Leads grammar b P Q) : Leads grammar (.alt a b) P Q := by
  apply of_step
  intro fuel s t hs hstep
  cases hstep with
  | left ht => exact ha fuel s t hs ht
  | right _ ht => exact hb fuel s t hs ht

theorem opt (ha : Leads grammar a P P) : Leads grammar (Pattern.opt a) P P := alt ha empty

/-- A repetition keeps what one match keeps. -/
theorem many (ha : Leads grammar a P P) : Leads grammar (.many a) P P := by
  intro fuel
  induction fuel with
  | zero =>
      intro s t hs ht
      cases ht
  | succ fuel ih =>
      intro s t hs ht
      cases Pattern.step_of_match? ht with
      | none => exact hs
      | last ht _ => exact ha fuel s t hs ht
      | more hu ht => exact ih _ t (ha fuel s _ hs hu) ht

theorem token {kind : Kind} (h : ∀ s t text, P s → Advances s t →
    Q { t with found := .leaf kind s.offset t.offset text :: s.found }) : Leads grammar (.token kind a) P Q := by
  apply of_step
  intro fuel s t hs hstep
  cases hstep with
  | token _ hu => exact h s _ _ hs (Pattern.advances_of_match? hu)

theorem branch {kind : Kind} (h : ∀ s t, P s → Advances { s with found := [] } t →
    Q { t with found := .branch kind s.offset t.offset t.found.reverse :: s.found }) :
    Leads grammar (.branch kind a) P Q := by
  apply of_step
  intro fuel s t hs hstep
  cases hstep with
  | branch _ hu => exact h s _ hs (Pattern.advances_of_match? hu)

theorem rule {r : Rule} (h : Leads grammar (grammar r) P Q) : Leads grammar (.rule r) P Q := by
  apply of_step
  intro fuel s t hs hstep
  cases hstep with
  | rule ht => exact h fuel s t hs ht

end Leads

/-- The pattern leaves no trace. -/
def Pattern.isSilent : Pattern Rule Kind → Bool
  | .seq a b => a.isSilent && b.isSilent
  | .alt a b => a.isSilent && b.isSilent
  | .many a => a.isSilent
  | .token .. => false
  | .branch .. => false
  | .rule _ => false
  | _ => true

/-- What a silent pattern leaves found is what was found before. -/
theorem Leads.of_isSilent (found : List (Tree Kind)) (h : a.isSilent = true) :
    Leads grammar a (·.found = found) (·.found = found) := by
  induction a with
  | seq a b iha ihb =>
      obtain ⟨ha, hb⟩ := Bool.and_eq_true_iff.mp h
      exact seq (iha ha) (ihb hb)
  | alt a b iha ihb =>
      obtain ⟨ha, hb⟩ := Bool.and_eq_true_iff.mp h
      exact alt (iha ha) (ihb hb)
  | many a iha => exact many (iha h)
  | token kind a => cases h
  | branch kind a => cases h
  | rule r => cases h
  | _ =>
      apply of_step
      intro fuel s t hs hstep
      cases hstep
      exact hs

/-- The pattern leaves no trace, and the flag as it is. -/
def Pattern.isStill : Pattern Rule Kind → Bool
  | .seq a b => a.isStill && b.isStill
  | .alt a b => a.isStill && b.isStill
  | .many a => a.isStill
  | .flag _ => false
  | .token .. => false
  | .branch .. => false
  | .rule _ => false
  | _ => true

/-- A still pattern takes characters off the text, and changes nothing else. -/
theorem Leads.of_isStill (found : List (Tree Kind)) (flag : Bool) (h : a.isStill = true) :
    Leads grammar a (fun s => s.found = found ∧ s.flag = flag) fun s => s.found = found ∧ s.flag = flag := by
  induction a with
  | seq a b iha ihb =>
      obtain ⟨ha, hb⟩ := Bool.and_eq_true_iff.mp h
      exact seq (iha ha) (ihb hb)
  | alt a b iha ihb =>
      obtain ⟨ha, hb⟩ := Bool.and_eq_true_iff.mp h
      exact alt (iha ha) (ihb hb)
  | many a iha => exact many (iha h)
  | flag b => cases h
  | token kind a => cases h
  | branch kind a => cases h
  | rule r => cases h
  | _ =>
      apply of_step
      intro fuel s t hs hstep
      cases hstep
      exact hs

/-- What is left of a text stands at the offset that has been reached. -/
def Reached.In (text : List Char) (s : Reached Kind) : Prop := text.drop s.offset = s.rest

theorem Advances.stays_in {text : List Char} {s t : Reached Kind} (h : Advances s t) (hs : s.In text) : t.In text := by
  obtain ⟨taken, found, hrest, hoffset, -, -⟩ := h
  rw [Reached.In, hoffset, ← List.drop_drop, hs, hrest, List.drop_left]

/-- Patterns of a class find trees with a property in a text: the class holds for the parts of its members, and a
branch has the property by what its pattern matched and, if the pattern is of the class too, by the property of the
trees inside. -/
structure Finds (grammar : Rule → Pattern Rule Kind) (text : List Char) (among : Pattern Rule Kind → Prop)
    (found : Tree Kind → Prop) : Prop where
  seq : ∀ {a b}, among (.seq a b) → among a ∧ among b
  alt : ∀ {a b}, among (.alt a b) → among a ∧ among b
  many : ∀ {a}, among (.many a) → among a
  rule : ∀ {r}, among (.rule r) → among (grammar r)
  leaf : ∀ kind start stop text, found (.leaf kind start stop text)
  branch : ∀ {kind a}, among (.branch kind a) → ∀ {fuel s t}, s.In text → s.found = [] →
    Pattern.match? grammar fuel a s = some (some t) → (among a → ∀ tree ∈ t.found, found tree) →
    found (.branch kind s.offset t.offset t.found.reverse)

namespace Finds

variable {text : List Char} {among : Pattern Rule Kind → Prop}
  {found : Tree Kind → Prop}

/-- A match adds only trees that have the property. -/
theorem added_of_match? (h : Finds grammar text among found) {fuel : Nat} {pattern : Pattern Rule Kind}
    {s t : Reached Kind} (hpattern : among pattern) (hin : s.In text)
    (ht : Pattern.match? grammar fuel pattern s = some (some t)) :
    ∃ trees, t.found = trees ++ s.found ∧ ∀ tree ∈ trees, found tree := by
  induction fuel generalizing pattern s t with
  | zero => cases ht
  | succ fuel ih =>
      have hgoes {a : Pattern Rule Kind} {u : Reached Kind} (hu : Pattern.match? grammar fuel a s = some (some u)) :
          u.In text := (Pattern.advances_of_match? hu).stays_in hin
      have hboth {u : Reached Kind} (hu : ∃ trees, u.found = trees ++ s.found ∧ ∀ tree ∈ trees, found tree)
          (ht : ∃ trees, t.found = trees ++ u.found ∧ ∀ tree ∈ trees, found tree) :
          ∃ trees, t.found = trees ++ s.found ∧ ∀ tree ∈ trees, found tree := by
        obtain ⟨trees, hfound, htrees⟩ := hu
        obtain ⟨trees', hfound', htrees'⟩ := ht
        refine ⟨trees' ++ trees, ?_, List.forall_mem_append.mpr ⟨htrees', htrees⟩⟩
        rw [hfound', hfound, List.append_assoc]
      cases Pattern.step_of_match? ht with
      | seq hu ht => exact hboth (ih (h.seq hpattern).1 hin hu) (ih (h.seq hpattern).2 (hgoes hu) ht)
      | left ht => exact ih (h.alt hpattern).1 hin ht
      | right _ ht => exact ih (h.alt hpattern).2 hin ht
      | last ht _ => exact ih (h.many hpattern) hin ht
      | more hu ht => exact hboth (ih (h.many hpattern) hin hu) (ih hpattern (hgoes hu) ht)
      | token => exact ⟨[_], rfl, List.forall_mem_singleton.mpr (h.leaf _ _ _ _)⟩
      | branch kind hu =>
          refine ⟨[_], rfl, List.forall_mem_singleton.mpr (h.branch hpattern (s := { s with found := [] }) hin rfl hu ?_)⟩
          intro ha
          obtain ⟨trees, hfound, htrees⟩ := ih (s := { s with found := [] }) ha hin hu
          rw [hfound, List.append_nil]
          exact htrees
      | rule ht => exact ih (h.rule hpattern) hin ht
      | _ => exact ⟨[], rfl, fun _ hmem => absurd hmem List.not_mem_nil⟩

/-- Trees found so far have the property, and a match adds only such trees. -/
theorem found_of_match? (h : Finds grammar text among found) {fuel : Nat} {pattern : Pattern Rule Kind}
    {s t : Reached Kind} (hpattern : among pattern) (hin : s.In text) (hs : ∀ tree ∈ s.found, found tree)
    (ht : Pattern.match? grammar fuel pattern s = some (some t)) : ∀ tree ∈ t.found, found tree := by
  obtain ⟨trees, hfound, htrees⟩ := h.added_of_match? hpattern hin ht
  rw [hfound]
  exact List.forall_mem_append.mpr ⟨htrees, hs⟩

theorem found_of_parse? (h : Finds grammar text among found) {start : Rule} (hstart : among (.rule start))
    {trees : List (Tree Kind)} (ht : parse? grammar start text = some trees) :
    ∀ tree ∈ trees, found tree := by
  unfold parse? at ht
  split at ht
  next reached hreached =>
    split at ht
    next =>
      cases ht
      intro tree htree
      have hin : Reached.In text ({ rest := text } : Reached Kind) := List.drop_zero
      exact h.found_of_match? hstart hin (fun _ hmem => absurd hmem List.not_mem_nil) hreached tree
        (List.mem_reverse.mp htree)
    next => cases ht
  next => cases ht

end Finds

end MarkupIds.Grammar
