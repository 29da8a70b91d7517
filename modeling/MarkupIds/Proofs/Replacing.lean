import Mathlib.Algebra.BigOperators.Group.List.Basic
import Mathlib.Algebra.Ring.Int.Defs
import Mathlib.Data.List.Pairwise

/-! Edits of a sequence, be it of characters or of bytes. Made one behind the other in the order of their ranges they
succeed exactly if none of them reaches over the start of another; then each range has given way to its replacement and
all else stays, in whatever order the edits were given. -/

namespace MarkupIds

section Gathering

variable {α β : Type}

/-- Members of a list may change their order where what they bring commutes. -/
theorem flatMap_eq_of_perm {f : α → List β} {as bs : List α} (h : as.Perm bs)
    (hcommute : as.Pairwise fun a b => f a ++ f b = f b ++ f a) : as.flatMap f = bs.flatMap f := by
  induction h with
  | nil => rfl
  | cons a _ ih =>
      rw [List.flatMap_cons, List.flatMap_cons, ih (List.pairwise_cons.mp hcommute).2]
  | swap a b as =>
      have hboth := (List.pairwise_cons.mp hcommute).1 a List.mem_cons_self
      rw [List.flatMap_cons, List.flatMap_cons, List.flatMap_cons, List.flatMap_cons, ← List.append_assoc, hboth,
        List.append_assoc]
  | trans hab _ ihab ihbc =>
      exact (ihab hcommute).trans (ihbc ((hab.pairwise_iff Eq.symm).mp hcommute))

/-- What members bring in two parts may be gathered part by part where no first part comes behind a second one. -/
theorem flatMap_append_of_pairwise {f g : α → List β} {as : List α}
    (h : as.Pairwise fun a b => g a = [] ∨ f b = []) :
    as.flatMap (fun a => f a ++ g a) = as.flatMap f ++ as.flatMap g := by
  induction as with
  | nil => rfl
  | cons a as ih =>
      obtain ⟨hfirst, hrest⟩ := List.pairwise_cons.mp h
      have hcommute : g a ++ as.flatMap f = as.flatMap f ++ g a := by
        by_cases hnone : g a = []
        · rw [hnone, List.nil_append, List.append_nil]
        · have hothers : as.flatMap f = [] :=
            List.flatMap_eq_nil_iff.mpr fun b hb => (hfirst b hb).resolve_left hnone
          rw [hothers, List.nil_append, List.append_nil]
      rw [List.flatMap_cons, List.flatMap_cons, List.flatMap_cons, ih hrest, List.append_assoc,
        ← List.append_assoc (g a), hcommute, List.append_assoc, List.append_assoc]

end Gathering

/-- An edit of a sequence: a range of offsets and what takes its place. -/
class SequenceEdit (ε : Type) (α : outParam Type) where
  start : ε → Nat
  stop : ε → Nat
  replacement : ε → List α

namespace SequenceEdit

variable {ε α : Type} [SequenceEdit ε α] {e : ε} {edits : List ε} {source rest out : List α} {cursor i n : Nat}

/-- The edits made one after another; `rest` is the sequence from offset `cursor` on. The error is the start of an edit
that begins before its predecessor ends. -/
def makeFrom (cursor : Nat) (rest : List α) : List ε → Except Nat (List α)
  | [] => .ok rest
  | e :: edits =>
    if start e < cursor then .error (start e)
    else
      match makeFrom (stop e) (rest.drop (stop e - cursor)) edits with
      | .ok tail => .ok (rest.take (start e - cursor) ++ replacement e ++ tail)
      | .error start => .error start

def Precedes (a b : ε) : Prop := start a < start b ∨ start a = start b ∧ stop a < stop b

def Overlaps (a b : ε) : Prop := Precedes a b ∧ start b < stop a

def InRange (source : List α) (edits : List ε) : Prop := ∀ e ∈ edits, start e ≤ stop e ∧ stop e ≤ source.length

def Distinct (edits : List ε) : Prop := edits.Pairwise fun a b => (start a, stop a) ≠ (start b, stop b)

instance (a b : ε) : Decidable (Precedes a b) :=
  inferInstanceAs (Decidable (start a < start b ∨ start a = start b ∧ stop a < stop b))

instance (a b : ε) : Decidable (Overlaps a b) := inferInstanceAs (Decidable (Precedes a b ∧ start b < stop a))

instance (source : List α) (edits : List ε) : Decidable (InRange source edits) :=
  inferInstanceAs (Decidable (∀ e ∈ edits, start e ≤ stop e ∧ stop e ≤ source.length))

instance (edits : List ε) : Decidable (Distinct edits) :=
  inferInstanceAs (Decidable (edits.Pairwise fun a b => (start a, stop a) ≠ (start b, stop b)))

/-- What edits put in at a place, in the order in which they are given. -/
def putAt (edits : List ε) (i : Nat) : List α := edits.flatMap fun e => if start e = i then replacement e else []

/-- An edit takes the member at a place away. -/
def takesAt (edits : List ε) (i : Nat) : Bool := edits.any fun e => start e ≤ i && i < stop e

/-- What stands at a place of a sequence behind edits made in the given order. -/
def placeAt (edits : List ε) (source : List α) (i : Nat) : List α :=
  putAt edits i ++ if takesAt edits i then [] else source[i]?.toList

section Places

theorem putAt_cons (e : ε) (edits : List ε) (i : Nat) :
    putAt (e :: edits) i = (if start e = i then replacement e else []) ++ putAt edits i := List.flatMap_cons

theorem takesAt_cons (e : ε) (edits : List ε) (i : Nat) :
    takesAt (e :: edits) i = (start e ≤ i && i < stop e || takesAt edits i) := List.any_cons

theorem putAt_eq_nil (h : ∀ e ∈ edits, i < start e) : putAt edits i = [] := by
  refine List.flatMap_eq_nil_iff.mpr fun e he => ?_
  have hlt := h e he
  exact if_neg (by omega)

theorem takesAt_eq_false (h : ∀ e ∈ edits, i < start e) : takesAt edits i = false := by
  refine List.any_eq_false.mpr fun e he => ?_
  have hlt := h e he
  simp only [Bool.and_eq_true, decide_eq_true_eq]
  omega

theorem flatMap_placeAt_of_le (h : ∀ e ∈ edits, i + n ≤ start e) :
    (List.range' i n).flatMap (placeAt edits source) = (source.drop i).take n := by
  induction n with
  | zero => rfl
  | succ n ih =>
      have hlast : ∀ e ∈ edits, i + n < start e := fun e he => h e he
      have hplace : placeAt edits source (i + n) = source[i + n]?.toList := by
        rw [placeAt, putAt_eq_nil hlast, takesAt_eq_false hlast]
        rfl
      rw [List.range'_concat, Nat.one_mul, List.flatMap_append, List.flatMap_singleton, hplace,
        ih fun e he => Nat.le_of_lt (hlast e he), List.take_add_one, List.getElem?_drop]

theorem placeAt_cons_of_lt (h : start e < i) :
    placeAt (e :: edits) source i = if i < stop e then putAt edits i else placeAt edits source i := by
  have hput : putAt (e :: edits) i = putAt edits i := by
    rw [putAt_cons, if_neg (by omega), List.nil_append]
  rw [placeAt, hput, takesAt_cons, decide_eq_true (p := start e ≤ i) (by omega), Bool.true_and]
  by_cases hstop : i < stop e
  · rw [decide_eq_true hstop, if_pos hstop, Bool.true_or, if_pos rfl, List.append_nil]
  · rw [decide_eq_false hstop, if_neg hstop, Bool.false_or, placeAt]

theorem placeAt_cons_start (hothers : ∀ e' ∈ edits, stop e ≤ start e') :
    placeAt (e :: edits) source (start e) =
      replacement e ++ if start e < stop e then [] else placeAt edits source (start e) := by
  rw [placeAt, putAt_cons, if_pos rfl, takesAt_cons, decide_eq_true (Nat.le_refl _), Bool.true_and, List.append_assoc]
  by_cases hstop : start e < stop e
  · have hbehind : ∀ e' ∈ edits, start e < start e' := fun e' he' => Nat.lt_of_lt_of_le hstop (hothers e' he')
    rw [putAt_eq_nil hbehind, decide_eq_true hstop, if_pos hstop, Bool.true_or, if_pos rfl, List.nil_append]
  · rw [decide_eq_false hstop, if_neg hstop, Bool.false_or, placeAt]

/-- From the start of the first edit on stands its replacement, then what the others leave of all behind its range. -/
theorem flatMap_placeAt_cons (hle : start e ≤ stop e) (hstop : stop e ≤ n) (hothers : ∀ e' ∈ edits, stop e ≤ start e') :
    (List.range' (start e) (n + 1 - start e)).flatMap (placeAt (e :: edits) source) =
      replacement e ++ (List.range' (stop e) (n + 1 - stop e)).flatMap (placeAt edits source) := by
  have hbehind {k : Nat} (hstart : start e < k) (hk : stop e ≤ k) :
      placeAt (e :: edits) source k = placeAt edits source k := by
    rw [placeAt_cons_of_lt hstart, if_neg (by omega)]
  have hfirst : n + 1 - start e = (n - start e) + 1 := by omega
  rw [hfirst, List.range'_succ, List.flatMap_cons, placeAt_cons_start hothers, List.append_assoc]
  refine congrArg (replacement e ++ ·) ?_
  obtain hempty | hlt := Nat.eq_or_lt_of_le hle
  · have hlast : n + 1 - stop e = (n - start e) + 1 := by omega
    rw [if_neg (by omega), hlast, ← hempty, List.range'_succ, List.flatMap_cons]
    refine congrArg (placeAt edits source (start e) ++ ·) (List.flatMap_congr fun k hk => ?_)
    have hrange := List.mem_range'_1.mp hk
    exact hbehind (by omega) (by omega)
  · have hsplit : n - start e = (stop e - (start e + 1)) + (n + 1 - stop e) := by omega
    have hstart : start e + 1 + 1 * (stop e - (start e + 1)) = stop e := by omega
    rw [if_pos hlt, List.nil_append, hsplit, ← List.range'_append, hstart, List.flatMap_append]
    have htaken : (List.range' (start e + 1) (stop e - (start e + 1))).flatMap (placeAt (e :: edits) source) = [] := by
      refine List.flatMap_eq_nil_iff.mpr fun k hk => ?_
      have hrange := List.mem_range'_1.mp hk
      rw [placeAt_cons_of_lt (by omega), if_pos (by omega)]
      refine putAt_eq_nil fun e' he' => ?_
      have hafter := hothers e' he'
      omega
    rw [htaken, List.nil_append]
    refine List.flatMap_congr fun k hk => ?_
    have hrange := List.mem_range'_1.mp hk
    exact hbehind (by omega) (by omega)

/-- Edits that stand one behind the other can be made, and leave the sequence as they say place by place. -/
theorem makeFrom_eq_places (hcursor : cursor ≤ source.length) (hrange : InRange source edits)
    (hstarts : ∀ e ∈ edits, cursor ≤ start e) (hbehind : edits.Pairwise fun a b => stop a ≤ start b) :
    makeFrom cursor (source.drop cursor) edits =
      .ok ((List.range' cursor (source.length + 1 - cursor)).flatMap (placeAt edits source)) := by
  induction edits generalizing cursor with
  | nil =>
      rw [flatMap_placeAt_of_le fun e he => absurd he List.not_mem_nil, List.take_of_length_le (by simp; omega)]
      rfl
  | cons e edits ih =>
      obtain ⟨hothers, hpairs⟩ := List.pairwise_cons.mp hbehind
      obtain ⟨⟨hle, hstop⟩, hlater⟩ := List.forall_mem_cons.mp hrange
      have hstart := hstarts e List.mem_cons_self
      have hdrop : (source.drop cursor).drop (stop e - cursor) = source.drop (stop e) := by
        rw [List.drop_drop, Nat.add_sub_cancel' (by omega)]
      have hsplit : source.length + 1 - cursor = (start e - cursor) + (source.length + 1 - start e) := by omega
      have hplace : cursor + 1 * (start e - cursor) = start e := by omega
      have hbefore : (List.range' cursor (start e - cursor)).flatMap (placeAt (e :: edits) source) =
          (source.drop cursor).take (start e - cursor) := by
        refine flatMap_placeAt_of_le (List.forall_mem_cons.mpr ⟨by omega, fun e' he' => ?_⟩)
        have hafter := hothers e' he'
        omega
      rw [makeFrom, if_neg (by omega), hdrop, ih hstop hlater hothers hpairs, hsplit, ← List.range'_append, hplace,
        List.flatMap_append, flatMap_placeAt_cons hle hstop hothers, hbefore, ← List.append_assoc]

theorem makeFrom_zero_eq_places (hrange : InRange source edits) (hbehind : edits.Pairwise fun a b => stop a ≤ start b) :
    makeFrom 0 source edits = .ok ((List.range (source.length + 1)).flatMap (placeAt edits source)) := by
  rw [List.range_eq_range']
  exact makeFrom_eq_places (Nat.zero_le _) hrange (fun _ _ => Nat.zero_le _) hbehind

end Places

theorem pairwise_of_makeFrom (hrange : ∀ e ∈ edits, start e ≤ stop e) (h : makeFrom cursor rest edits = .ok out) :
    edits.Pairwise (fun a b => stop a ≤ start b) ∧ ∀ e ∈ edits, cursor ≤ start e := by
  induction edits generalizing cursor rest out with
  | nil => exact ⟨.nil, fun e he => absurd he List.not_mem_nil⟩
  | cons e edits ih =>
      obtain ⟨hle, hlater⟩ := List.forall_mem_cons.mp hrange
      rw [makeFrom] at h
      split at h
      · cases h
      next hcursor =>
        split at h
        next tail htail =>
          obtain ⟨hpairs, hstart⟩ := ih hlater htail
          refine ⟨List.pairwise_cons.mpr ⟨hstart, hpairs⟩, List.forall_mem_cons.mpr ⟨by omega, fun e' he' => ?_⟩⟩
          have hafter := hstart e' he'
          omega
        next => cases h

def growth (e : ε) : Int := ((replacement e).length : Int) - ((stop e : Int) - start e)

theorem length_of_makeFrom (hrange : ∀ e ∈ edits, start e ≤ stop e ∧ stop e ≤ cursor + rest.length)
    (h : makeFrom cursor rest edits = .ok out) : (out.length : Int) = rest.length + (edits.map growth).sum := by
  induction edits generalizing cursor rest out with
  | nil =>
      obtain rfl := Except.ok.inj h
      simp
  | cons e edits ih =>
      obtain ⟨⟨hle, hstop⟩, hlater⟩ := List.forall_mem_cons.mp hrange
      rw [makeFrom] at h
      split at h
      · cases h
      next hcursor =>
        split at h
        next tail htail =>
          have hdrop : (rest.drop (stop e - cursor)).length = cursor + rest.length - stop e := by
            rw [List.length_drop]
            omega
          have hbehind : ∀ e' ∈ edits,
              start e' ≤ stop e' ∧ stop e' ≤ stop e + (rest.drop (stop e - cursor)).length := by
            intro e' he'
            obtain ⟨hle', hstop'⟩ := hlater e' he'
            omega
          have htail := ih hbehind htail
          obtain rfl := Except.ok.inj h
          rw [hdrop] at htail
          rw [List.map_cons, List.sum_cons, List.length_append, List.length_append, List.length_take, growth]
          omega
        next => cases h

section Order

variable {a b : ε}

theorem Precedes.asymm (h : Precedes a b) : ¬ Precedes b a := by
  unfold Precedes at *
  omega

theorem Precedes.start_le (h : Precedes a b) : start a ≤ start b := by
  unfold Precedes at h
  omega

theorem Distinct.perm {edits' : List ε} (hdistinct : Distinct edits) (h : edits.Perm edits') : Distinct edits' :=
  (h.pairwise_iff fun hne => hne.symm).mp hdistinct

theorem pairwise_precedes (hsorted : edits.Pairwise fun a b => ¬ Precedes b a) (hdistinct : Distinct edits) :
    edits.Pairwise Precedes := by
  refine (hsorted.and hdistinct).imp fun {a b} h => ?_
  obtain ⟨hnot, hne⟩ := h
  rw [ne_eq, Prod.mk.injEq] at hne
  unfold Precedes at *
  omega

theorem eq_of_perm_of_precedes {edits' : List ε} (h : edits.Perm edits') (hedits : edits.Pairwise Precedes)
    (hedits' : edits'.Pairwise Precedes) : edits = edits' :=
  h.eq_of_pairwise (fun _ _ _ _ hab hba => absurd hba hab.asymm) hedits hedits'

/-- Edits in their order that do not overlap stand one behind the other. -/
theorem pairwise_of_not_overlaps (hedits : edits.Pairwise Precedes) (h : ∀ a ∈ edits, ∀ b ∈ edits, ¬ Overlaps a b) :
    edits.Pairwise fun a b => stop a ≤ start b := by
  refine hedits.imp_of_mem fun {a b} ha hb hprecedes => ?_
  exact Nat.le_of_not_lt fun hlt => h a ha b hb ⟨hprecedes, hlt⟩

theorem not_overlaps_of_pairwise (hedits : edits.Pairwise Precedes)
    (hbehind : edits.Pairwise fun a b => stop a ≤ start b) : ∀ a ∈ edits, ∀ b ∈ edits, ¬ Overlaps a b := by
  have hsymm : Std.Symm fun a b : ε => ¬ Overlaps a b ∧ ¬ Overlaps b a := ⟨fun _ _ => And.symm⟩
  have hpairs : edits.Pairwise fun a b => ¬ Overlaps a b ∧ ¬ Overlaps b a :=
    (hedits.and hbehind).imp fun h => ⟨fun hover => Nat.not_lt_of_le h.2 hover.2, fun hover => h.1.asymm hover.1⟩
  have hself : ∀ a ∈ edits, ¬ Overlaps a a ∧ ¬ Overlaps a a :=
    fun a _ => ⟨fun h => h.1.asymm h.1, fun h => h.1.asymm h.1⟩
  exact fun a ha b hb => (List.Pairwise.forall_of_forall hself hpairs ha hb).1

/-- The cursor or one of the edits reaches over the start of an edit. -/
def Reached (cursor : Nat) (edits : List ε) (b : ε) : Prop := start b < cursor ∨ ∃ a ∈ edits, Overlaps a b

theorem not_reached_cons (hcursor : cursor ≤ start e) (hfirst : ∀ a ∈ edits, Precedes e a) :
    ¬ Reached cursor (e :: edits) e := by
  rintro (hlt | ⟨a, ha, hprecedes, -⟩)
  · exact absurd hlt (Nat.not_lt.mpr hcursor)
  · rcases List.mem_cons.mp ha with rfl | ha
    · exact hprecedes.asymm hprecedes
    · exact hprecedes.asymm (hfirst a ha)

/-- Behind the first edit the cursor stands at its stop. -/
theorem reached_cons_iff (hcursor : cursor ≤ start e) (hfirst : Precedes e b) :
    Reached cursor (e :: edits) b ↔ Reached (stop e) edits b := by
  have hstart := hfirst.start_le
  constructor
  · rintro (hlt | ⟨a, ha, hover⟩)
    · exact absurd hlt (by omega)
    · rcases List.mem_cons.mp ha with rfl | ha
      · exact .inl hover.2
      · exact .inr ⟨a, ha, hover⟩
  · rintro (hlt | ⟨a, ha, hover⟩)
    · exact .inr ⟨e, List.mem_cons_self, hfirst, hlt⟩
    · exact .inr ⟨a, List.mem_cons_of_mem e ha, hover⟩

/-- Edits are refused at the first start that is reached over. -/
theorem makeFrom_eq_error {s : Nat} (hedits : edits.Pairwise Precedes) (h : makeFrom cursor rest edits = .error s) :
    (∃ b ∈ edits, Reached cursor edits b ∧ start b = s) ∧ ∀ b ∈ edits, Reached cursor edits b → s ≤ start b := by
  induction edits generalizing cursor rest with
  | nil => cases h
  | cons e edits ih =>
      obtain ⟨hfirst, hrest⟩ := List.pairwise_cons.mp hedits
      rw [makeFrom] at h
      split at h
      next hback =>
        obtain rfl := Except.error.inj h
        refine ⟨⟨e, List.mem_cons_self, .inl hback, rfl⟩, List.forall_mem_cons.mpr ⟨fun _ => Nat.le_refl _, ?_⟩⟩
        exact fun b hb _ => (hfirst b hb).start_le
      next hback =>
        split at h
        · cases h
        next s' hs =>
          obtain rfl := Except.error.inj h
          have hcursor := Nat.le_of_not_lt hback
          obtain ⟨⟨b, hb, hreached, hstart⟩, hleast⟩ := ih hrest hs
          refine ⟨⟨b, List.mem_cons_of_mem e hb, (reached_cons_iff hcursor (hfirst b hb)).mpr hreached, hstart⟩, ?_⟩
          refine List.forall_mem_cons.mpr ⟨fun hreached => absurd hreached (not_reached_cons hcursor hfirst), ?_⟩
          exact fun c hc hreached => hleast c hc ((reached_cons_iff hcursor (hfirst c hc)).mp hreached)

/-- Of two edits of one start the first reaches over the second if its range is not empty. -/
theorem makeFrom_of_start_eq (hfull : start e < stop e) (hedits : (e :: edits).Pairwise fun a b => start a ≤ start b)
    (ha : a ∈ edits) (hsame : start a = start e) : makeFrom cursor rest (e :: edits) = .error (start e) := by
  cases edits with
  | nil => cases ha
  | cons b edits =>
      obtain ⟨hfirst, hrest⟩ := List.pairwise_cons.mp hedits
      have hle : start b ≤ start a := by
        rcases List.mem_cons.mp ha with rfl | ha
        · exact Nat.le_refl _
        · exact (List.pairwise_cons.mp hrest).1 a ha
      have hstart : start b = start e := Nat.le_antisymm (hsame ▸ hle) (hfirst b List.mem_cons_self)
      rw [makeFrom]
      split
      · rfl
      · rw [makeFrom, hstart, if_pos hfull]

/-- Where no range is empty, an order of the starts is enough: edits of one start are refused whichever comes first. -/
theorem makeFrom_eq_of_perm {edits' : List ε} (h : edits.Perm edits') (hfull : ∀ e ∈ edits, start e < stop e)
    (hedits : edits.Pairwise fun a b => start a ≤ start b) (hedits' : edits'.Pairwise fun a b => start a ≤ start b) :
    makeFrom cursor rest edits = makeFrom cursor rest edits' := by
  induction edits generalizing edits' cursor rest with
  | nil => rw [h.nil_eq]
  | cons e edits ih =>
      cases edits' with
      | nil => cases h.eq_nil
      | cons e' edits' =>
          by_cases heq : e = e'
          · subst heq
            rw [makeFrom, makeFrom, ih h.cons_inv (List.forall_mem_cons.mp hfull).2 hedits.of_cons hedits'.of_cons]
          · have he' := h.mem_iff.mpr (List.mem_cons_self (a := e') (l := edits'))
            have hmem : e' ∈ edits := (List.mem_cons.mp he').resolve_left (Ne.symm heq)
            have hmem' : e ∈ edits' := (List.mem_cons.mp (h.mem_iff.mp List.mem_cons_self)).resolve_left heq
            have hsame : start e = start e' :=
              Nat.le_antisymm (List.rel_of_pairwise_cons hedits hmem) (List.rel_of_pairwise_cons hedits' hmem')
            rw [makeFrom_of_start_eq (hfull e List.mem_cons_self) hedits hmem hsame.symm,
              makeFrom_of_start_eq (hfull e' he') hedits' hmem' hsame, hsame]

end Order

section Replaced

def inserted (edits : List ε) (i : Nat) : List α :=
  edits.flatMap fun e => if start e = i ∧ stop e = i then replacement e else []

def substituted (edits : List ε) (i : Nat) : List α :=
  edits.flatMap fun e => if start e = i ∧ i < stop e then replacement e else []

/-- The sequence with every range replaced. At each place stands what is inserted there, then what takes the place of
the range that starts there, then the member of the sequence if it is in no range. -/
def replaced (edits : List ε) (source : List α) : List α :=
  (List.range (source.length + 1)).flatMap fun i =>
    inserted edits i ++ substituted edits i ++ if takesAt edits i then [] else source[i]?.toList

/-- In edits that stand one behind the other an insertion comes before the range that starts at its place. -/
theorem putAt_eq_append (hrange : ∀ e ∈ edits, start e ≤ stop e) (hbehind : edits.Pairwise fun a b => stop a ≤ start b)
    (i : Nat) : putAt edits i = inserted edits i ++ substituted edits i := by
  have hparts : ∀ e ∈ edits, (if start e = i then replacement e else []) =
      (if start e = i ∧ stop e = i then replacement e else []) ++
        if start e = i ∧ i < stop e then replacement e else [] := by
    intro e he
    have hle := hrange e he
    by_cases hstart : start e = i
    · by_cases hstop : stop e = i
      · simp [hstart, hstop]
      · have hlt : i < stop e := by omega
        simp [hstart, hstop, hlt]
    · simp [hstart]
  rw [putAt, List.flatMap_congr hparts, flatMap_append_of_pairwise]
  · rfl
  · refine hbehind.imp_of_mem fun {a b} _ _ hle => ?_
    by_cases ha : start a = i ∧ i < stop a
    · exact .inr (if_neg (by omega))
    · exact .inl (if_neg ha)

/-- No two edits in their order are insertions at one place, and no two ranges start at one; so what stands at a place
does not depend on the order. -/
theorem placeAt_eq_of_perm {ordered : List ε} (h : ordered.Perm edits) (hrange : ∀ e ∈ ordered, start e ≤ stop e)
    (hordered : ordered.Pairwise Precedes) (hbehind : ordered.Pairwise fun a b => stop a ≤ start b) (i : Nat) :
    placeAt ordered source i =
      inserted edits i ++ substituted edits i ++ if takesAt edits i then [] else source[i]?.toList := by
  have hcommute {x y : List α} (h : x = [] ∨ y = []) : x ++ y = y ++ x := by
    rcases h with rfl | rfl <;> simp
  have hinserted : inserted ordered i = inserted edits i := by
    refine flatMap_eq_of_perm h (hordered.imp fun {a b} hprecedes => hcommute ?_)
    by_cases ha : start a = i ∧ stop a = i
    · refine .inr (if_neg fun hb => ?_)
      unfold Precedes at hprecedes
      omega
    · exact .inl (if_neg ha)
  have hsubstituted : substituted ordered i = substituted edits i := by
    refine flatMap_eq_of_perm h (hbehind.imp fun {a b} hle => hcommute ?_)
    by_cases ha : start a = i ∧ i < stop a
    · exact .inr (if_neg (by omega))
    · exact .inl (if_neg ha)
  have htakes : takesAt ordered i = takesAt edits i := h.any_eq
  rw [placeAt, putAt_eq_append hrange hbehind, hinserted, hsubstituted, htakes]

/-- The function makes the edits: it refuses them exactly if two of them overlap, at the first start that another edit
reaches over; else it replaces every range. The order in which the edits are given has no part in it. -/
structure Makes (make : List α → List ε → Except Nat (List α)) (source : List α) (edits : List ε) : Prop where
  refused_iff : (∃ s, make source edits = .error s) ↔ ∃ a ∈ edits, ∃ b ∈ edits, Overlaps a b
  refused_at : ∀ s, make source edits = .error s →
    (∃ a ∈ edits, ∃ b ∈ edits, Overlaps a b ∧ start b = s) ∧ ∀ a ∈ edits, ∀ b ∈ edits, Overlaps a b → s ≤ start b
  eq_replaced : (∀ a ∈ edits, ∀ b ∈ edits, ¬ Overlaps a b) → make source edits = .ok (replaced edits source)
  length_eq : ∀ out, make source edits = .ok out → (out.length : Int) = source.length + (edits.map growth).sum
  eq_of_perm : ∀ edits', edits'.Perm edits → make source edits' = make source edits

theorem Makes.congr {make make' : List α → List ε → Except Nat (List α)} (h : Makes make source edits)
    (hsame : ∀ edits', edits'.Perm edits → make' source edits' = make source edits') : Makes make' source edits where
  refused_iff := by simpa only [hsame edits (.refl edits)] using h.refused_iff
  refused_at := by simpa only [hsame edits (.refl edits)] using h.refused_at
  eq_replaced := by simpa only [hsame edits (.refl edits)] using h.eq_replaced
  length_eq := by simpa only [hsame edits (.refl edits)] using h.length_eq
  eq_of_perm edits' hperm := by
    simpa only [hsame edits (.refl edits), hsame edits' hperm] using h.eq_of_perm edits' hperm

theorem makeFrom_eq_replaced {ordered : List ε} (h : ordered.Perm edits) (hrange : InRange source ordered)
    (hordered : ordered.Pairwise Precedes) (hnone : ∀ a ∈ ordered, ∀ b ∈ ordered, ¬ Overlaps a b) :
    makeFrom 0 source ordered = .ok (replaced edits source) := by
  have hbehind := pairwise_of_not_overlaps hordered hnone
  rw [makeFrom_zero_eq_places hrange hbehind, replaced]
  exact congrArg Except.ok
    (List.flatMap_congr fun i _ => placeAt_eq_of_perm h (fun e he => (hrange e he).1) hordered hbehind i)

/-- It is enough to bring the edits into their order first. -/
theorem makes_of_order {make : List α → List ε → Except Nat (List α)} {order : List ε → List ε}
    (hperm : ∀ edits, (order edits).Perm edits) (hsorted : ∀ edits, (order edits).Pairwise fun a b => ¬ Precedes b a)
    (hmake : ∀ edits, make source edits = makeFrom 0 source (order edits)) (hrange : InRange source edits)
    (hdistinct : Distinct edits) : Makes make source edits := by
  have hmem {e : ε} : e ∈ order edits ↔ e ∈ edits := (hperm edits).mem_iff
  have hrange' : InRange source (order edits) := fun e he => hrange e (hmem.mp he)
  have hordered := pairwise_precedes (hsorted edits) (hdistinct.perm (hperm edits).symm)
  have hrefused {s : Nat} (h : make source edits = .error s) :
      (∃ a ∈ edits, ∃ b ∈ edits, Overlaps a b ∧ start b = s) ∧
        ∀ a ∈ edits, ∀ b ∈ edits, Overlaps a b → s ≤ start b := by
    obtain ⟨⟨b, hb, hlt | ⟨a, ha, hover⟩, hstart⟩, hleast⟩ := makeFrom_eq_error hordered ((hmake edits).symm.trans h)
    · exact absurd hlt (Nat.not_lt_zero _)
    · exact ⟨⟨a, hmem.mp ha, b, hmem.mp hb, hover, hstart⟩,
        fun a ha b hb hover => hleast b (hmem.mpr hb) (.inr ⟨a, hmem.mpr ha, hover⟩)⟩
  refine ⟨⟨?_, ?_⟩, fun s => hrefused, ?_, ?_, ?_⟩
  · rintro ⟨s, h⟩
    obtain ⟨⟨a, ha, b, hb, hover, -⟩, -⟩ := hrefused h
    exact ⟨a, ha, b, hb, hover⟩
  · rintro ⟨a, ha, b, hb, hover⟩
    cases hmade : make source edits with
    | error s => exact ⟨s, rfl⟩
    | ok out =>
        have hbehind := (pairwise_of_makeFrom (fun e he => (hrange' e he).1) ((hmake edits).symm.trans hmade)).1
        exact absurd hover (not_overlaps_of_pairwise hordered hbehind a (hmem.mpr ha) b (hmem.mpr hb))
  · intro hnone
    rw [hmake]
    exact makeFrom_eq_replaced (hperm edits) hrange' hordered fun a ha b hb => hnone a (hmem.mp ha) b (hmem.mp hb)
  · intro out h
    have hbounds : ∀ e ∈ order edits, start e ≤ stop e ∧ stop e ≤ 0 + source.length := by
      rw [Nat.zero_add]
      exact hrange'
    have hlength := length_of_makeFrom hbounds ((hmake edits).symm.trans h)
    rwa [((hperm edits).map growth).sum_eq] at hlength
  · intro edits' h
    have hordered' := pairwise_precedes (hsorted edits') ((hdistinct.perm h.symm).perm (hperm edits').symm)
    rw [hmake, hmake, eq_of_perm_of_precedes ((hperm edits').trans (h.trans (hperm edits).symm)) hordered' hordered]

end Replaced

end SequenceEdit

end MarkupIds
