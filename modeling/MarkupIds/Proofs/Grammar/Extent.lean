import MarkupIds.Grammar.Pattern

/-! The extents of a trace. One step of a match is told by the matches of the parts of a pattern; a match takes characters
off the front of a text and nothing else, and what it finds stands in that piece, one tree behind the other and the
children inside their parent. -/

namespace MarkupIds.Grammar

namespace Pattern

variable {Rule Kind : Type} {grammar : Rule → Pattern Rule Kind} {fuel : Nat}

/-- A pattern matches from `s` to `t` where its parts, with fuel for them, match as they do here. -/
inductive Step (grammar : Rule → Pattern Rule Kind) (fuel : Nat) :
    Pattern Rule Kind → Reached Kind → Reached Kind → Prop where
  | empty (s : Reached Kind) : Step grammar fuel .empty s s
  | char {p : Char → Bool} {s : Reached Kind} {c : Char} {rest : List Char} : s.rest = c :: rest → p c = true →
      Step grammar fuel (.char p) s { s with offset := s.offset + 1, rest }
  | run (p : Char → Bool) (s : Reached Kind) : Step grammar fuel (.run p) s
      { s with offset := s.offset + (s.rest.takeWhile p).length, rest := s.rest.dropWhile p }
  | text {literal : List Char} {s : Reached Kind} : literal <+: s.rest → Step grammar fuel (.text literal) s
      { s with offset := s.offset + literal.length, rest := s.rest.drop literal.length }
  | seq {a b : Pattern Rule Kind} {s u t : Reached Kind} : match? grammar fuel a s = some (some u) →
      match? grammar fuel b u = some (some t) → Step grammar fuel (.seq a b) s t
  | left {a b : Pattern Rule Kind} {s t : Reached Kind} : match? grammar fuel a s = some (some t) →
      Step grammar fuel (.alt a b) s t
  | right {a b : Pattern Rule Kind} {s t : Reached Kind} : match? grammar fuel a s = some none →
      match? grammar fuel b s = some (some t) → Step grammar fuel (.alt a b) s t
  | none {a : Pattern Rule Kind} {s : Reached Kind} : match? grammar fuel a s = some none →
      Step grammar fuel (.many a) s s
  | last {a : Pattern Rule Kind} {s t : Reached Kind} : match? grammar fuel a s = some (some t) →
      t.offset = s.offset → Step grammar fuel (.many a) s t
  | more {a : Pattern Rule Kind} {s u t : Reached Kind} : match? grammar fuel a s = some (some u) →
      match? grammar fuel (.many a) u = some (some t) → Step grammar fuel (.many a) s t
  | unless {a : Pattern Rule Kind} {s : Reached Kind} : match? grammar fuel a s = some none →
      Step grammar fuel (.unless a) s s
  | given {p : List Char → Bool} {s : Reached Kind} : p s.rest = true → Step grammar fuel (.given p) s s
  | flagged {s : Reached Kind} : s.flag = true → Step grammar fuel .flagged s s
  | flag (b : Bool) (s : Reached Kind) : Step grammar fuel (.flag b) s { s with flag := b }
  | token (kind : Kind) {a : Pattern Rule Kind} {s t : Reached Kind} : match? grammar fuel a s = some (some t) →
      Step grammar fuel (.token kind a) s
        { t with found := .leaf kind s.offset t.offset (s.rest.take (t.offset - s.offset)) :: s.found }
  | branch (kind : Kind) {a : Pattern Rule Kind} {s t : Reached Kind} :
      match? grammar fuel a { s with found := [] } = some (some t) → Step grammar fuel (.branch kind a) s
        { t with found := .branch kind s.offset t.offset t.found.reverse :: s.found }
  | rule {r : Rule} {s t : Reached Kind} : match? grammar fuel (grammar r) s = some (some t) →
      Step grammar fuel (.rule r) s t

theorem step_of_match? {pattern : Pattern Rule Kind} {s t : Reached Kind}
    (h : match? grammar (fuel + 1) pattern s = some (some t)) : Step grammar fuel pattern s t := by
  cases pattern with
  | empty =>
      cases h
      exact .empty s
  | char p =>
      rw [match?] at h
      split at h
      next c rest hrest =>
        split at h
        next hc =>
          cases h
          exact .char hrest hc
        next => cases h
      next => cases h
  | run p =>
      cases h
      exact .run p s
  | text literal =>
      rw [match?] at h
      split at h
      next hprefix =>
        cases h
        exact .text (List.isPrefixOf_iff_prefix.mp hprefix)
      next => cases h
  | seq a b =>
      rw [match?] at h
      split at h
      next u hu => exact .seq hu h
      next answer hanswer => exact absurd h (hanswer t)
  | alt a b =>
      rw [match?] at h
      split at h
      next hnone => exact .right hnone h
      next => exact .left h
  | many a =>
      rw [match?] at h
      split at h
      next u hu =>
        split at h
        next hsame =>
          cases h
          exact .last hu (beq_iff_eq.mp hsame)
        next => exact .more hu h
      next hnone =>
        cases h
        exact .none hnone
      next => cases h
  | «unless» a =>
      rw [match?] at h
      split at h
      next => cases h
      next hnone =>
        cases h
        exact .unless hnone
      next => cases h
  | given p =>
      rw [match?] at h
      split at h
      next hp =>
        cases h
        exact .given hp
      next => cases h
  | flagged =>
      rw [match?] at h
      split at h
      next hflag =>
        cases h
        exact .flagged hflag
      next => cases h
  | flag b =>
      cases h
      exact .flag b s
  | token kind a =>
      rw [match?] at h
      split at h
      next u hu =>
        cases h
        exact .token kind hu
      next answer hanswer => exact absurd h (hanswer t)
  | branch kind a =>
      rw [match?] at h
      split at h
      next u hu =>
        cases h
        exact .branch kind hu
      next answer hanswer => exact absurd h (hanswer t)
  | rule r => exact .rule h

end Pattern

variable {Rule Kind : Type}

/-- Induction on trees and all inside them. -/
@[elab_as_elim]
theorem Tree.list_induction {motive : List (Tree Kind) → Prop} (nil : motive [])
    (leaf : ∀ kind start stop text rest, motive rest → motive (.leaf kind start stop text :: rest))
    (branch : ∀ kind start stop children rest, motive children → motive rest →
      motive (.branch kind start stop children :: rest)) : ∀ trees, motive trees
  | [] => nil
  | .leaf kind start stop text :: rest =>
    leaf kind start stop text rest (list_induction nil leaf branch rest)
  | .branch kind start stop children :: rest =>
    branch kind start stop children rest (list_induction nil leaf branch children)
      (list_induction nil leaf branch rest)

/-- Trees that stand one behind the other between two offsets. -/
def Spans (first last : Nat) : List (Tree Kind) → Prop
  | [] => first ≤ last
  | .leaf _ start stop text :: rest =>
    first ≤ start ∧ stop = start + text.length ∧ Spans stop last rest
  | .branch _ start stop children :: rest =>
    first ≤ start ∧ Spans start stop children ∧ Spans stop last rest

@[simp] theorem spans_nil {first last : Nat} :
    Spans first last ([] : List (Tree Kind)) ↔ first ≤ last := by rw [Spans]

@[simp] theorem spans_leaf {first last start stop : Nat} {kind : Kind} {text : List Char}
    {rest : List (Tree Kind)} :
    Spans first last (.leaf kind start stop text :: rest) ↔
      first ≤ start ∧ stop = start + text.length ∧ Spans stop last rest := by rw [Spans]

@[simp] theorem spans_branch {first last start stop : Nat} {kind : Kind}
    {children rest : List (Tree Kind)} :
    Spans first last (.branch kind start stop children :: rest) ↔
      first ≤ start ∧ Spans start stop children ∧ Spans stop last rest := by rw [Spans]

theorem Spans.le {first last : Nat} {trees : List (Tree Kind)} (h : Spans first last trees) :
    first ≤ last := by
  induction trees using Tree.list_induction generalizing first last with
  | nil => exact spans_nil.mp h
  | leaf kind start stop text rest ih =>
      obtain ⟨hfirst, hstop, hrest⟩ := spans_leaf.mp h
      have := ih hrest
      omega
  | branch kind start stop children rest ihchildren ihrest =>
      obtain ⟨hfirst, hchildren, hrest⟩ := spans_branch.mp h
      have := ihchildren hchildren
      have := ihrest hrest
      omega

/-- Trees may start further back. -/
theorem Spans.mono_left {start first last : Nat} {trees : List (Tree Kind)} (hle : start ≤ first)
    (h : Spans first last trees) : Spans start last trees := by
  cases trees with
  | nil => exact spans_nil.mpr (Nat.le_trans hle (spans_nil.mp h))
  | cons tree trees =>
      cases tree with
      | leaf kind tstart stop text =>
          obtain ⟨hfirst, hrest⟩ := spans_leaf.mp h
          exact spans_leaf.mpr ⟨Nat.le_trans hle hfirst, hrest⟩
      | branch kind tstart stop children =>
          obtain ⟨hfirst, hrest⟩ := spans_branch.mp h
          exact spans_branch.mpr ⟨Nat.le_trans hle hfirst, hrest⟩

/-- The first of some trees stands before the others. -/
theorem Spans.of_cons {first last : Nat} {tree : Tree Kind} {trees : List (Tree Kind)}
    (h : Spans first last (tree :: trees)) :
    ∃ middle, Spans first middle [tree] ∧ Spans middle last trees := by
  cases tree with
  | leaf kind start stop text =>
      obtain ⟨hfirst, hstop, hrest⟩ := spans_leaf.mp h
      exact ⟨stop, spans_leaf.mpr ⟨hfirst, hstop, spans_nil.mpr (Nat.le_refl _)⟩, hrest⟩
  | branch kind start stop children =>
      obtain ⟨hfirst, hchildren, hrest⟩ := spans_branch.mp h
      exact ⟨stop, spans_branch.mpr ⟨hfirst, hchildren, spans_nil.mpr (Nat.le_refl _)⟩, hrest⟩

theorem Spans.append {first middle last : Nat} {a b : List (Tree Kind)} (ha : Spans first middle a)
    (hb : Spans middle last b) : Spans first last (a ++ b) := by
  induction a generalizing first with
  | nil => exact hb.mono_left (spans_nil.mp ha)
  | cons tree a ih =>
      cases tree with
      | leaf kind start stop text =>
          obtain ⟨hfirst, hstop, hrest⟩ := spans_leaf.mp ha
          exact spans_leaf.mpr ⟨hfirst, hstop, ih hrest⟩
      | branch kind start stop children =>
          obtain ⟨hfirst, hchildren, hrest⟩ := spans_branch.mp ha
          exact spans_branch.mpr ⟨hfirst, hchildren, ih hrest⟩

/-- A match goes on from one point of a text to another: it takes a piece off, and finds trees in it. -/
def Advances (s t : Reached Kind) : Prop :=
  ∃ taken found, s.rest = taken ++ t.rest ∧ t.offset = s.offset + taken.length ∧
    t.found = found.reverse ++ s.found ∧ Spans s.offset t.offset found

theorem Advances.refl (s : Reached Kind) (flag : Bool) : Advances s { s with flag } :=
  ⟨[], [], rfl, rfl, rfl, spans_nil.mpr (Nat.le_refl _)⟩

theorem Advances.trans {s t u : Reached Kind} (hst : Advances s t) (htu : Advances t u) :
    Advances s u := by
  obtain ⟨taken, found, hrest, hoffset, hfound, hspans⟩ := hst
  obtain ⟨taken', found', hrest', hoffset', hfound', hspans'⟩ := htu
  refine ⟨taken ++ taken', found ++ found', ?_, ?_, ?_, hspans.append hspans'⟩
  · rw [hrest, hrest', List.append_assoc]
  · rw [hoffset', hoffset, List.length_append, Nat.add_assoc]
  · rw [hfound', hfound, List.reverse_append, List.append_assoc]

/-- A piece taken off the text, in which nothing is found. -/
theorem Advances.of_taken {s : Reached Kind} {taken rest : List Char} (h : s.rest = taken ++ rest) :
    Advances s { s with offset := s.offset + taken.length, rest } :=
  ⟨taken, [], h, rfl, rfl, spans_nil.mpr (Nat.le_add_right _ _)⟩

namespace Pattern

/-- Every match takes a piece off the text and finds its trees in it. -/
theorem advances_of_match? {grammar : Rule → Pattern Rule Kind} {fuel : Nat}
    {pattern : Pattern Rule Kind} {s t : Reached Kind}
    (h : match? grammar fuel pattern s = some (some t)) : Advances s t := by
  induction fuel generalizing pattern s t with
  | zero => cases h
  | succ fuel ih =>
      cases step_of_match? h with
      | empty => exact .refl s s.flag
      | char hrest _ =>
          have hpiece : s.rest = [_] ++ _ := hrest
          exact .of_taken hpiece
      | run => exact .of_taken List.takeWhile_append_dropWhile.symm
      | text hprefix =>
          obtain ⟨rest, hrest⟩ := hprefix
          rw [← hrest, List.drop_left]
          exact .of_taken hrest.symm
      | seq hu ht => exact (ih hu).trans (ih ht)
      | left ht => exact ih ht
      | right _ ht => exact ih ht
      | none => exact .refl s s.flag
      | last ht _ => exact ih ht
      | more hu ht => exact (ih hu).trans (ih ht)
      | «unless» => exact .refl s s.flag
      | given => exact .refl s s.flag
      | flagged => exact .refl s s.flag
      | flag b => exact .refl s b
      | @token kind a _ u hu =>
          obtain ⟨taken, found, hrest, hoffset, -, -⟩ := ih hu
          have hsub : u.offset - s.offset = taken.length := by omega
          refine ⟨taken, [.leaf kind s.offset u.offset (s.rest.take (u.offset - s.offset))], hrest,
            hoffset, rfl, spans_leaf.mpr ⟨Nat.le_refl _, ?_, spans_nil.mpr (Nat.le_refl _)⟩⟩
          rw [hsub, hrest, List.take_left, hoffset]
      | @branch kind a _ u hu =>
          obtain ⟨taken, found, hrest, hoffset, hfound, hspans⟩ := ih hu
          refine ⟨taken, [.branch kind s.offset u.offset u.found.reverse], hrest, hoffset, rfl,
            spans_branch.mpr ⟨Nat.le_refl _, ?_, spans_nil.mpr (Nat.le_refl _)⟩⟩
          rw [hfound, List.append_nil, List.reverse_reverse]
          exact hspans
      | rule ht => exact ih ht

end Pattern

/-- The trees of a text stand in it one behind the other. -/
theorem spans_of_parse? {grammar : Rule → Pattern Rule Kind} {start : Rule} {text : List Char}
    {trees : List (Tree Kind)} (h : parse? grammar start text = some trees) :
    Spans 0 text.length trees := by
  unfold parse? at h
  split at h
  next reached hreached =>
    split at h
    next hrest =>
      cases h
      obtain ⟨taken, found, htext, hoffset, hfound, hspans⟩ := Pattern.advances_of_match? hreached
      rw [List.isEmpty_iff.mp hrest, List.append_nil] at htext
      rw [hfound, List.append_nil, List.reverse_reverse]
      have hlength : reached.offset = text.length := by rw [hoffset, ← htext, Nat.zero_add]
      exact hlength ▸ hspans
    next => cases h
  next => cases h

end MarkupIds.Grammar
