import Mathlib.Data.List.Perm.Basic
import MarkupIds.Edit
import MarkupIds.Proofs.Replacing

/-! Edits that are made one after another: where they succeed no two of them overlap, and edits that only add to the text
put each piece into its place and keep all else. A character stays where it is unless an edit takes it, and what an edit
puts in stands where the edit starts. -/

namespace MarkupIds

namespace Text

/-- The text from offset `cursor` on, with pieces put in at offsets of the whole text. -/
def insertFrom (cursor : Nat) : List (Nat × List Char) → List Char → List Char
  | [], s => s
  | (p, piece) :: rest, s =>
    s.take (p - cursor) ++ piece ++ insertFrom p rest (s.drop (p - cursor))

/-- The text with pieces put in at offsets. -/
def insertAll (pieces : List (Nat × List Char)) (s : List Char) : List Char := insertFrom 0 pieces s

/-- Text before the first piece stays in front. -/
theorem insertFrom_append_left {cursor : Nat} {pieces : List (Nat × List Char)} {a : List Char}
    (h : ∀ p ∈ pieces, cursor + a.length ≤ p.1) (s : List Char) :
    insertFrom cursor pieces (a ++ s) = a ++ insertFrom (cursor + a.length) pieces s := by
  cases pieces with
  | nil => rfl
  | cons first pieces =>
      have hfirst := h first List.mem_cons_self
      obtain ⟨d, hd⟩ : ∃ d, first.1 - cursor = a.length + d := ⟨first.1 - cursor - a.length, by omega⟩
      have hd' : first.1 - (cursor + a.length) = d := by omega
      simp only [insertFrom, hd, hd', List.take_length_add_append, List.drop_length_add_append,
        List.append_assoc]

end Text

section Forall₂

variable {α β : Type} {R : α → β → Prop} {as : List α} {bs : List β}

theorem exists_of_forall₂_of_mem (h : List.Forall₂ R as bs) {a : α} (ha : a ∈ as) :
    ∃ b ∈ bs, R a b := by
  induction h with
  | nil => cases ha
  | @cons a' b as bs hab _ ih =>
      rcases List.mem_cons.mp ha with rfl | ha
      · exact ⟨b, List.mem_cons_self, hab⟩
      · obtain ⟨b', hb', hR⟩ := ih ha
        exact ⟨b', List.mem_cons_of_mem _ hb', hR⟩

/-- What holds between any two of the one list holds between their partners in the other. -/
theorem pairwise_of_forall₂ {S : α → α → Prop} {T : β → β → Prop} (h : List.Forall₂ R as bs)
    (hS : as.Pairwise S) (hT : ∀ a b a' b', R a b → R a' b' → S a a' → T b b') : bs.Pairwise T := by
  induction h with
  | nil => exact .nil
  | @cons a b as bs hab hrest ih =>
      obtain ⟨hfirst, hS⟩ := List.pairwise_cons.mp hS
      refine List.pairwise_cons.mpr ⟨?_, ih hS⟩
      intro b' hb'
      obtain ⟨a', ha', hR⟩ := exists_of_forall₂_of_mem (List.Forall₂.flip hrest) hb'
      exact hT a b a' b' hab hR (hfirst a' ha')

end Forall₂

namespace Edit

instance : SequenceEdit Edit Char := ⟨start, stop, replacement⟩

@[simp] theorem start_eq (e : Edit) : SequenceEdit.start e = e.start := rfl

@[simp] theorem stop_eq (e : Edit) : SequenceEdit.stop e = e.stop := rfl

@[simp] theorem replacement_eq (e : Edit) : SequenceEdit.replacement e = e.replacement := rfl

/-- The edits of a text are made as those of any sequence. -/
theorem spliceFrom_eq (cursor : Nat) (rest : List Char) (edits : List Edit) :
    spliceFrom cursor rest edits = SequenceEdit.makeFrom cursor rest edits := by
  induction edits generalizing cursor rest with
  | nil => rfl
  | cons e edits ih =>
      rw [spliceFrom, SequenceEdit.makeFrom, ih, start_eq, stop_eq, replacement_eq]
      cases SequenceEdit.makeFrom e.stop (rest.drop (e.stop - cursor)) edits <;> rfl

theorem putInto_perm (e : Edit) (edits : List Edit) : (putInto e edits).Perm (e :: edits) := by
  induction edits with
  | nil => exact .refl _
  | cons other edits ih =>
      rw [putInto]
      split
      · exact .refl _
      · exact (ih.cons other).trans (.swap e other edits)

theorem inOrder_perm (edits : List Edit) : (inOrder edits).Perm edits := by
  induction edits with
  | nil => exact .refl _
  | cons e edits ih => exact (putInto_perm e _).trans (ih.cons e)

theorem infix_of_spliceFrom {cursor : Nat} {rest out : List Char} {edits : List Edit}
    (h : spliceFrom cursor rest edits = .ok out) {e : Edit} (he : e ∈ edits) : e.replacement <:+: out := by
  induction edits generalizing cursor rest out with
  | nil => cases he
  | cons first edits ih =>
      rw [spliceFrom] at h
      split at h
      next => cases h
      next =>
        split at h
        next tail htail =>
          cases h
          obtain rfl | hmore := List.mem_cons.mp he
          · exact List.infix_append _ _ _
          · exact (ih htail hmore).trans (List.suffix_append _ _).isInfix
        next => cases h

/-- What an edit writes stands in the result. -/
theorem infix_of_splice {source out : List Char} {edits : List Edit} (h : splice source edits = .ok out) {e : Edit}
    (he : e ∈ edits) : e.replacement <:+: out :=
  infix_of_spliceFrom h ((inOrder_perm edits).mem_iff.mpr he)

/-- Edits that stand in their order stay in it. -/
theorem inOrder_of_pairwise {edits : List Edit} (h : edits.Pairwise fun a b => le a b) :
    inOrder edits = edits := by
  induction edits with
  | nil => rfl
  | cons e edits ih =>
      obtain ⟨hfirst, hrest⟩ := List.pairwise_cons.mp h
      rw [inOrder, List.foldr_cons]
      refine (congrArg (putInto e) (ih hrest)).trans ?_
      cases edits with
      | nil => rfl
      | cons other edits => rw [putInto, if_pos (hfirst other List.mem_cons_self)]

theorem le_total (a b : Edit) : le a b = true ∨ le b a = true := by
  simp only [le, Bool.or_eq_true, Bool.and_eq_true, decide_eq_true_eq, beq_iff_eq]
  omega

theorem le_trans {a b c : Edit} (hab : le a b = true) (hbc : le b c = true) : le a c = true := by
  simp only [le, Bool.or_eq_true, Bool.and_eq_true, decide_eq_true_eq, beq_iff_eq] at *
  omega

theorem pairwise_putInto (e : Edit) {edits : List Edit} (h : edits.Pairwise fun a b => le a b) :
    (putInto e edits).Pairwise fun a b => le a b := by
  induction edits with
  | nil => exact List.pairwise_singleton _ _
  | cons other edits ih =>
      obtain ⟨hfirst, hrest⟩ := List.pairwise_cons.mp h
      rw [putInto]
      split
      next hle =>
        refine List.pairwise_cons.mpr ⟨?_, h⟩
        intro e' he'
        rcases List.mem_cons.mp he' with rfl | he'
        · exact hle
        · exact le_trans hle (hfirst e' he')
      next hle =>
        refine List.pairwise_cons.mpr ⟨?_, ih hrest⟩
        intro e' he'
        rcases List.mem_cons.mp ((putInto_perm e edits).mem_iff.mp he') with rfl | he'
        · exact (le_total e' other).resolve_left hle
        · exact hfirst e' he'

theorem pairwise_inOrder (edits : List Edit) : (inOrder edits).Pairwise fun a b => le a b := by
  induction edits with
  | nil => exact .nil
  | cons e edits ih => exact pairwise_putInto e ih

/-- One of two edits ends before the other starts. -/
def Disjoint (a b : Edit) : Prop := a.stop ≤ b.start ∨ b.stop ≤ a.start

theorem Disjoint.symm {a b : Edit} (h : Disjoint a b) : Disjoint b a := Or.symm h

theorem exists_spliceFrom {cursor : Nat} {rest : List Char} {edits : List Edit}
    (hedits : edits.Pairwise fun a b => a.stop ≤ b.start) (hcursor : ∀ e ∈ edits, cursor ≤ e.start) :
    ∃ out, spliceFrom cursor rest edits = .ok out := by
  induction edits generalizing cursor rest with
  | nil => exact ⟨rest, rfl⟩
  | cons e edits ih =>
      obtain ⟨hfirst, hrest⟩ := List.pairwise_cons.mp hedits
      obtain ⟨tail, htail⟩ : ∃ tail, spliceFrom e.stop (rest.drop (e.stop - cursor)) edits = .ok tail :=
        ih hrest hfirst
      have hle := hcursor e List.mem_cons_self
      rw [spliceFrom, if_neg (by omega), htail]
      exact ⟨_, rfl⟩

/-- Edits no two of which overlap stand one behind the other once they are in their order. -/
theorem pairwise_inOrder_of_disjoint {edits : List Edit} (hrange : ∀ e ∈ edits, e.start ≤ e.stop)
    (hedits : edits.Pairwise Disjoint) : (inOrder edits).Pairwise fun a b => a.stop ≤ b.start := by
  have hperm := inOrder_perm edits
  have hdisjoint := (hperm.pairwise_iff Disjoint.symm).mpr hedits
  refine ((pairwise_inOrder edits).and hdisjoint).imp_of_mem ?_
  rintro a b ha hb ⟨hle, hdisjoint⟩
  have hstart := hrange a (hperm.mem_iff.mp ha)
  have hstop := hrange b (hperm.mem_iff.mp hb)
  simp only [le, Bool.or_eq_true, Bool.and_eq_true, decide_eq_true_eq, beq_iff_eq] at hle
  rcases hdisjoint with h | h <;> omega

/-- Edits no two of which overlap can be made. -/
theorem exists_splice {source : List Char} {edits : List Edit}
    (hrange : ∀ e ∈ edits, e.start ≤ e.stop) (hedits : edits.Pairwise Disjoint) :
    ∃ out, splice source edits = .ok out :=
  exists_spliceFrom (pairwise_inOrder_of_disjoint hrange hedits) fun _ _ => Nat.zero_le _

/-- Edits that could be made stand one behind the other. -/
theorem pairwise_of_spliceFrom {cursor : Nat} {rest out : List Char} {edits : List Edit}
    (hrange : ∀ e ∈ edits, e.start ≤ e.stop) (h : spliceFrom cursor rest edits = .ok out) :
    edits.Pairwise (fun a b => a.stop ≤ b.start) ∧ ∀ e ∈ edits, cursor ≤ e.start :=
  SequenceEdit.pairwise_of_makeFrom hrange ((spliceFrom_eq cursor rest edits).symm.trans h)

/-- The edit keeps its range as it is, but for a piece put in at `p`. -/
structure Inserts (source : List Char) (e : Edit) (p : Nat) (piece : List Char) : Prop where
  start_le : e.start ≤ p
  le_stop : p ≤ e.stop
  stop_le : e.stop ≤ source.length
  replacement_eq : e.replacement =
    (source.drop e.start).take (p - e.start) ++ piece ++ (source.drop p).take (e.stop - p)

/-- An edit that puts a piece between the two parts of what stands in its place. -/
theorem Inserts.of_parts {source a b rest : List Char} {start : Nat} (piece : List Char)
    (hle : start ≤ source.length) (h : source.drop start = a ++ b ++ rest) :
    Inserts source ⟨start, start + (a ++ b).length, a ++ piece ++ b⟩ (start + a.length) piece := by
  have hb : source.drop (start + a.length) = b ++ rest := by
    rw [← List.drop_drop, h, List.append_assoc, List.drop_left]
  have hlength : source.length = start + (a ++ b ++ rest).length := by
    rw [← h, List.length_drop]
    omega
  refine ⟨Nat.le_add_right _ _, ?_, ?_, ?_⟩
  · simp only [List.length_append]
    omega
  · simp only [hlength, List.length_append]
    omega
  · have ha : start + a.length - start = a.length := by omega
    have hlast : start + (a ++ b).length - (start + a.length) = b.length := by
      simp only [List.length_append]
      omega
    have hfirst : (a ++ b ++ rest).take a.length = a := by
      rw [List.append_assoc, List.take_left]
    simp only [hb, h, ha, hlast, hfirst, List.take_left]

/-- Edits that only put pieces in, made one after another. -/
theorem spliceFrom_inserts {source out : List Char} {cursor : Nat} {edits : List Edit}
    {pieces : List (Nat × List Char)}
    (hins : List.Forall₂ (fun e p => Inserts source e p.1 p.2) edits pieces)
    (h : spliceFrom cursor (source.drop cursor) edits = .ok out) :
    out = Text.insertFrom cursor pieces (source.drop cursor) ∧ ∀ p ∈ pieces, cursor ≤ p.1 := by
  induction hins generalizing cursor out with
  | nil =>
      cases h
      exact ⟨rfl, by simp⟩
  | @cons e piece edits pieces he _ ih =>
      rw [spliceFrom] at h
      split at h
      · cases h
      next hcursor =>
        have hstart := he.start_le
        have hstop := he.le_stop
        rw [List.drop_drop, Nat.add_sub_cancel' (by omega)] at h
        split at h
        next tail htail =>
          obtain ⟨rfl, hafter⟩ := ih htail
          cases h
          have hpiece : Text.insertFrom piece.1 pieces (source.drop piece.1) =
              (source.drop piece.1).take (e.stop - piece.1) ++
                Text.insertFrom e.stop pieces (source.drop e.stop) := by
            have hlen : ((source.drop piece.1).take (e.stop - piece.1)).length = e.stop - piece.1 := by
              have := he.stop_le
              rw [List.length_take, List.length_drop]
              omega
            have hsum : piece.1 + (e.stop - piece.1) = e.stop := by omega
            conv_lhs => rw [← List.take_append_drop (e.stop - piece.1) (source.drop piece.1)]
            rw [Text.insertFrom_append_left (fun p hp => by rw [hlen, hsum]; exact hafter p hp),
              hlen, List.drop_drop, hsum]
          have htake : (source.drop cursor).take (piece.1 - cursor) =
              (source.drop cursor).take (e.start - cursor) ++
                (source.drop e.start).take (piece.1 - e.start) := by
            have hsplit : piece.1 - cursor = (e.start - cursor) + (piece.1 - e.start) := by omega
            rw [hsplit, List.take_add, List.drop_drop, Nat.add_sub_cancel' (by omega)]
          refine ⟨?_, ?_⟩
          · rw [Text.insertFrom, List.drop_drop, Nat.add_sub_cancel' (by omega), hpiece, htake,
              he.replacement_eq]
            simp only [List.append_assoc]
          · intro p hp
            rcases List.mem_cons.mp hp with rfl | hp
            · omega
            · have := hafter p hp
              omega
        next => cases h

/-- Edits that only put pieces in, in whatever order they are given, are made in the order in which
they stand in the text, and give the text with the pieces. -/
theorem splice_inserts {α : Type} {source out : List Char} {edits : List Edit} {marks : List α}
    {R : Edit → α → Prop} {place : α → Nat} {piece : α → List Char}
    (hR : ∀ e a, R e a → Inserts source e (place a) (piece a))
    (hmarks : List.Forall₂ R edits marks) (h : splice source edits = .ok out) :
    ∃ edits' marks', List.Forall₂ R edits' marks' ∧ marks'.Perm marks ∧
      edits'.Pairwise (fun a b => a.stop ≤ b.start) ∧
      out = Text.insertAll (marks'.map fun a => (place a, piece a)) source := by
  obtain ⟨marks', hmarks', hperm⟩ := List.perm_comp_forall₂ (inOrder_perm edits) hmarks
  have hins : List.Forall₂ (fun e p => Inserts source e p.1 p.2) (inOrder edits)
      (marks'.map fun a => (place a, piece a)) :=
    List.forall₂_map_right_iff.mpr (hmarks'.imp fun e a => hR e a)
  have hrange : ∀ e ∈ inOrder edits, e.start ≤ e.stop := by
    intro e he
    obtain ⟨p, _, hp⟩ := exists_of_forall₂_of_mem hins he
    exact Nat.le_trans hp.start_le hp.le_stop
  exact ⟨_, marks', hmarks', hperm, (pairwise_of_spliceFrom hrange h).1,
    (spliceFrom_inserts hins (List.drop_zero (l := source) ▸ h)).1⟩

end Edit

namespace Text

/-- A text from offset `i` on, with something put in before each place and some characters taken out. -/
def weaveFrom (put : Nat → List Char) (takes : Nat → Bool) (i : Nat) : List Char → List Char
  | [] => put i
  | c :: s => put i ++ ((if takes i then [] else [c]) ++ weaveFrom put takes (i + 1) s)

/-- A text with something put in before each place, and behind the last, and some characters taken out. -/
def weave (put : Nat → List Char) (takes : Nat → Bool) (s : List Char) : List Char := weaveFrom put takes 0 s

/-- The text goes on place by place. -/
theorem weaveFrom_eq (put : Nat → List Char) (takes : Nat → Bool) (i : Nat) (s : List Char) : weaveFrom put takes i s =
    (List.range (s.length + 1)).flatMap fun k => put (i + k) ++ if takes (i + k) then [] else s[k]?.toList := by
  induction s generalizing i with
  | nil => simp [weaveFrom]
  | cons c s ih =>
      have hshift : (fun k => put (i + 1 + k) ++ if takes (i + 1 + k) then [] else s[k]?.toList) =
          fun k => put (i + (k + 1)) ++ if takes (i + (k + 1)) then [] else (c :: s)[k + 1]?.toList := by
        funext k
        rw [Nat.add_assoc, Nat.add_comm 1, List.getElem?_cons_succ]
      rw [weaveFrom, ih, hshift, List.length_cons, List.range_succ_eq_map (n := s.length + 1), List.flatMap_cons,
        List.flatMap_map, List.append_assoc]
      rfl

/-- A text from offset `i` on, some characters taken out, with something put in behind each place. -/
def strandFrom (put : Nat → List Char) (takes : Nat → Bool) (i : Nat) : List Char → List Char
  | [] => []
  | c :: s => (if takes i then [] else [c]) ++ (put (i + 1) ++ strandFrom put takes (i + 1) s)

section Strand

variable {put put' : Nat → List Char} {takes takes' : Nat → Bool} {i : Nat} {s : List Char}

theorem weaveFrom_eq_strandFrom (put : Nat → List Char) (takes : Nat → Bool) (i : Nat) (s : List Char) :
    weaveFrom put takes i s = put i ++ strandFrom put takes i s := by
  induction s generalizing i with
  | nil => exact (List.append_nil _).symm
  | cons c s ih => rw [weaveFrom, strandFrom, ih]

theorem strandFrom_append (put : Nat → List Char) (takes : Nat → Bool) (i : Nat) (a b : List Char) :
    strandFrom put takes i (a ++ b) = strandFrom put takes i a ++ strandFrom put takes (i + a.length) b := by
  induction a generalizing i with
  | nil => rfl
  | cons c a ih =>
      simp only [List.cons_append, strandFrom, ih, List.append_assoc, List.length_cons, Nat.add_assoc, Nat.add_comm 1]

/-- Only what happens in a stretch of the text matters to it. -/
theorem strandFrom_congr
    (h : ∀ j, i ≤ j → j < i + s.length → takes j = takes' j ∧ put (j + 1) = put' (j + 1)) :
    strandFrom put takes i s = strandFrom put' takes' i s := by
  induction s generalizing i with
  | nil => rfl
  | cons c s ih =>
      have hhere := h i (Nat.le_refl i) (by simp)
      rw [strandFrom, strandFrom, hhere.1, hhere.2, ih fun j hi hj => h j (by omega) (by simp only [List.length_cons]; omega)]

/-- Where all stays or all goes, and nothing is put in. -/
theorem strandFrom_eq (taken : Bool)
    (h : ∀ j, i ≤ j → j < i + s.length → takes j = taken ∧ put (j + 1) = []) :
    strandFrom put takes i s = if taken then [] else s := by
  induction s generalizing i with
  | nil => exact (ite_self []).symm
  | cons c s ih =>
      have hhere := h i (Nat.le_refl i) (by simp)
      rw [strandFrom, hhere.1, hhere.2, ih fun j hi hj => h j (by omega) (by simp only [List.length_cons]; omega)]
      cases taken <;> rfl

/-- Where all stays, and something is put in behind the last place only. -/
theorem strandFrom_eq_append (hs : s ≠ [])
    (h : ∀ j, i ≤ j → j < i + s.length → takes j = false ∧ (j + 1 < i + s.length → put (j + 1) = [])) :
    strandFrom put takes i s = s ++ put (i + s.length) := by
  obtain ⟨init, c, rfl⟩ := List.eq_nil_or_concat' s |>.resolve_left hs
  rw [List.length_append, List.length_singleton] at h ⊢
  rw [strandFrom_append, strandFrom_eq false fun j hi hj => ⟨(h j hi (by omega)).1, (h j hi (by omega)).2 (by omega)⟩]
  simp [strandFrom, (h (i + init.length) (by omega) (by omega)).1, Nat.add_assoc]

end Strand

end Text

namespace Edit

/-- What edits put in at an offset. -/
def putAt (edits : List Edit) (i : Nat) : List Char :=
  edits.flatMap fun e => if e.start = i then e.replacement else []

/-- An edit takes the character at an offset away. -/
def takesAt (edits : List Edit) (i : Nat) : Bool := edits.any fun e => e.start ≤ i && i < e.stop

/-- Edits that do not overlap, and no two of which put something in at one place, can be made, and leave the text as
they say place by place. -/
theorem splice_eq_weave {source : List Char} {edits : List Edit}
    (hrange : ∀ e ∈ edits, e.start ≤ e.stop ∧ e.stop ≤ source.length) (hedits : edits.Pairwise Disjoint)
    (halone : edits.Pairwise fun a b => a.start = b.start → a.replacement = [] ∨ b.replacement = []) :
    splice source edits = .ok (Text.weave (putAt edits) (takesAt edits) source) := by
  have hperm := inOrder_perm edits
  have hordered := pairwise_inOrder_of_disjoint (fun e he => (hrange e he).1) hedits
  have hput : putAt (inOrder edits) = putAt edits := by
    funext i
    refine (flatMap_eq_of_perm hperm.symm (halone.imp ?_)).symm
    intro a b hsame
    by_cases ha : a.start = i
    · by_cases hb : b.start = i
      · rcases hsame (ha.trans hb.symm) with hnone | hnone <;> simp [hnone]
      · simp [hb]
    · simp [ha]
  have htakes : takesAt (inOrder edits) = takesAt edits := by
    funext i
    exact hperm.any_eq
  have hmade := SequenceEdit.makeFrom_zero_eq_places (fun e he => hrange e (hperm.mem_iff.mp he)) hordered
  rw [splice, spliceFrom_eq, hmade, ← hput, ← htakes, Text.weave, Text.weaveFrom_eq]
  simp only [Nat.zero_add]
  rfl

end Edit

end MarkupIds
