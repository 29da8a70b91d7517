import Mathlib.Data.List.Nodup
import Mathlib.Order.Bounds.Basic
import MarkupIds.Ident.Generator

/-! The ids of a run of calls to one generator. Each call answers with the first free variant of its
candidate, the generator remembers exactly what it has answered, and no answer comes twice. -/

namespace MarkupIds.Generator

theorem suffixed_injective (candidate : String) : Function.Injective (suffixed candidate) := by
  intro j k h
  have hdigits : (toString j).toList = (toString k).toList :=
    congrArg String.toList ((String.append_right_inj _).mp h)
  simp only [Nat.toString_eq_repr, Nat.toList_repr] at hdigits
  simpa only [Nat.ofDigitChars_ten_toDigits] using
    congrArg (fun digits => Nat.ofDigitChars 10 digits 0) hdigits

/-- The search through the variants of a candidate: it stands at a number and goes on while the
variant is taken, until it stops at another. -/
inductive Search (taken : Set String) (candidate : String) : Nat → Nat → Prop
  | stop {k : Nat} : suffixed candidate k ∉ taken → Search taken candidate k k
  | next {k n : Nat} : suffixed candidate k ∈ taken → Search taken candidate (k + 1) n →
      Search taken candidate k n

/-- A search comes to its end exactly at the least free number from its start on. -/
theorem search_iff {taken : Set String} {candidate : String} {k n : Nat} :
    Search taken candidate k n ↔ IsLeast {j | k ≤ j ∧ suffixed candidate j ∉ taken} n := by
  constructor
  · intro h
    induction h with
    | stop hfree => exact ⟨⟨le_rfl, hfree⟩, fun j hj => hj.1⟩
    | @next k n htaken _ ih =>
        refine ⟨⟨by have := ih.1.1; omega, ih.1.2⟩, ?_⟩
        intro j hj
        have hne : j ≠ k := fun he => hj.2 (he ▸ htaken)
        have hj' := hj.1
        exact ih.2 ⟨by omega, hj.2⟩
  · intro h
    obtain ⟨d, hd⟩ : ∃ d, n = k + d := Nat.exists_eq_add_of_le h.1.1
    induction d generalizing k with
    | zero =>
        obtain rfl : n = k := hd
        exact .stop h.1.2
    | succ d ih =>
        have htaken : suffixed candidate k ∈ taken := by
          by_contra hfree
          have := h.2 ⟨le_rfl, hfree⟩
          omega
        refine .next htaken (ih ⟨⟨by omega, h.1.2⟩, ?_⟩ (by omega))
        intro j hj
        have hj' := hj.1
        exact h.2 ⟨by omega, hj.2⟩

/-- Among one more number than there are used ids, one has a variant that is not used. -/
theorem exists_suffixed_not_mem (used : List String) (candidate : String) :
    ∃ k ∈ List.range' 2 (used.length + 1), suffixed candidate k ∉ used := by
  by_contra h
  push Not at h
  have hnodup : ((List.range' 2 (used.length + 1)).map (suffixed candidate)).Nodup :=
    (List.nodup_range' 1).map (suffixed_injective candidate)
  have hsub : (List.range' 2 (used.length + 1)).map (suffixed candidate) ⊆ used := by
    intro id hid
    obtain ⟨k, hk, rfl⟩ := List.mem_map.mp hid
    exact h k hk
  have hle := hnodup.length_le_of_subset hsub
  rw [List.length_map, List.length_range'] at hle
  omega

/-- What a call may answer: its candidate where that is free, or else the variant at which the search
from two on ends. -/
def FirstFree (taken : Set String) (candidate id : String) : Prop :=
  (candidate ∉ taken ∧ id = candidate) ∨
    (candidate ∈ taken ∧ ∃ k, Search taken candidate 2 k ∧
      IsLeast {j | 2 ≤ j ∧ suffixed candidate j ∉ taken} k ∧ id = suffixed candidate k)

theorem FirstFree.not_mem {taken : Set String} {candidate id : String}
    (h : FirstFree taken candidate id) : id ∉ taken := by
  obtain ⟨hfree, rfl⟩ | ⟨_, k, _, hleast, rfl⟩ := h
  · exact hfree
  · exact hleast.1.2

theorem firstFree_spec (used : List String) (candidate : String) :
    FirstFree {id | id ∈ used} candidate (firstFree used candidate) := by
  unfold firstFree
  split
  · next hused =>
    refine .inr ⟨List.contains_iff_mem.mp hused, ?_⟩
    split
    · next k hk =>
      obtain ⟨hfree, hrange, hbelow⟩ := List.find?_range'_eq_some.mp hk
      have hleast : IsLeast {j | 2 ≤ j ∧ suffixed candidate j ∉ {id | id ∈ used}} k := by
        refine ⟨⟨(List.mem_range'_1.mp hrange).1, by simpa using hfree⟩, ?_⟩
        intro j hj
        by_contra hlt
        exact hj.2 (by simpa using hbelow j hj.1 (by omega))
      exact ⟨k, search_iff.mpr hleast, hleast, rfl⟩
    · next hnone =>
      obtain ⟨k, hk, hfree⟩ := exists_suffixed_not_mem used candidate
      have := List.find?_eq_none.mp hnone k hk
      simp [hfree] at this
  · next hfree => exact .inl ⟨by simpa using hfree, rfl⟩

theorem firstFree_not_mem (used : List String) (candidate : String) :
    firstFree used candidate ∉ used := (firstFree_spec used candidate).not_mem

/-- A call to a generator. -/
inductive Call where
  /-- An id for an element, as the options ask for it. -/
  | element (element : Descriptor) (o : Options)
  | hash (name : String) (ranks : List Int) (idPrefix : String)
  | slug (text : List Char) (idPrefix : String)
  | path (name : String) (ranks : List Int) (idPrefix : String)
  | unique (candidate : String)

namespace Call

/-- The id that a call would like to have. -/
def candidate : Call → String
  | element e o => Generator.candidate e o
  | hash name ranks idPrefix => hashCandidate name ranks idPrefix
  | slug text idPrefix => slugCandidate text idPrefix
  | path name ranks idPrefix => pathCandidate name ranks idPrefix
  | unique candidate => candidate

/-- The answer to a call, and the generator after it. -/
def answer (g : Generator) : Call → String × Generator
  | element e o => g.generate e o
  | hash name ranks idPrefix => g.ensureUnique (hashCandidate name ranks idPrefix)
  | slug text idPrefix => g.ensureUnique (slugCandidate text idPrefix)
  | path name ranks idPrefix => g.ensureUnique (pathCandidate name ranks idPrefix)
  | unique candidate => g.ensureUnique candidate

theorem answer_eq (g : Generator) (call : Call) : call.answer g = g.ensureUnique call.candidate := by
  cases call <;> rfl

end Call

/-- The answers to some calls in their order, and the generator after the last. -/
def run (g : Generator) : List Call → List String × Generator
  | [] => ([], g)
  | call :: calls =>
    let (id, g) := call.answer g
    let (ids, g) := g.run calls
    (id :: ids, g)

theorem run_cons (g : Generator) (call : Call) (calls : List Call) :
    g.run (call :: calls) =
      (firstFree g.used call.candidate :: ((call.answer g).2.run calls).1,
        ((call.answer g).2.run calls).2) := by
  rw [run, Call.answer_eq]
  rfl

theorem used_answer (g : Generator) (call : Call) :
    (call.answer g).2.used = firstFree g.used call.candidate :: g.used := by
  rw [Call.answer_eq]
  rfl

theorem run_append (g : Generator) (a b : List Call) :
    g.run (a ++ b) = ((g.run a).1 ++ ((g.run a).2.run b).1, ((g.run a).2.run b).2) := by
  induction a generalizing g with
  | nil => rfl
  | cons call a ih => rw [List.cons_append, run_cons, run_cons, ih]; rfl

theorem length_run (g : Generator) (calls : List Call) : (g.run calls).1.length = calls.length := by
  induction calls generalizing g with
  | nil => rfl
  | cons call calls ih => rw [run_cons, List.length_cons, List.length_cons, ih]

/-- A generator remembers what it has answered, the last first. -/
theorem used_run (g : Generator) (calls : List Call) :
    (g.run calls).2.used = (g.run calls).1.reverse ++ g.used := by
  induction calls generalizing g with
  | nil => rfl
  | cons call calls ih => rw [run_cons, ih, used_answer]; simp

theorem nodup_used_run {g : Generator} (hg : g.used.Nodup) (calls : List Call) :
    (g.run calls).2.used.Nodup := by
  induction calls generalizing g with
  | nil => exact hg
  | cons call calls ih =>
      rw [run_cons]
      apply ih
      rw [used_answer]
      exact List.nodup_cons.mpr ⟨firstFree_not_mem _ _, hg⟩

/-- The answers of a new generator are pairwise distinct. -/
theorem nodup_run (calls : List Call) : (({} : Generator).run calls).1.Nodup := by
  have h := nodup_used_run (g := {}) List.nodup_nil calls
  rw [used_run, List.append_nil] at h
  exact List.nodup_reverse.mp h

theorem run_take (g : Generator) (calls : List Call) (n : Nat) :
    (g.run (calls.take n)).1 = (g.run calls).1.take n := by
  induction calls generalizing g n with
  | nil => simp [run]
  | cons call calls ih =>
      cases n with
      | zero => rfl
      | succ n => rw [List.take_succ_cons, run_cons, run_cons, List.take_succ_cons, ih]

/-- In a run of calls of any kind, order and number, the answers are pairwise distinct; after any of
the calls the generator remembers exactly the answers so far; and each call gets the first free
variant of its candidate, which the search through its variants finds in the end. -/
theorem run_answers_first_free (calls : List Call) :
    let ids := (({} : Generator).run calls).1
    ids.length = calls.length ∧ ids.Nodup ∧
      (∀ n id, id ∈ (({} : Generator).run (calls.take n)).2.used ↔ id ∈ ids.take n) ∧
      ∀ n call, calls[n]? = some call →
        ∃ id, ids[n]? = some id ∧ FirstFree {taken | taken ∈ ids.take n} call.candidate id := by
  intro ids
  have hused : ∀ n id, id ∈ (({} : Generator).run (calls.take n)).2.used ↔ id ∈ ids.take n := by
    intro n id
    rw [used_run, List.append_nil, List.mem_reverse, run_take]
  refine ⟨length_run _ _, nodup_run calls, hused, ?_⟩
  intro n call hcall
  obtain ⟨hn, rfl⟩ := List.getElem?_eq_some_iff.mp hcall
  have hids : ids = (({} : Generator).run (calls.take n ++ calls[n] :: calls.drop (n + 1))).1 := by
    rw [← List.drop_eq_getElem_cons hn, List.take_append_drop]
  have hlength : (({} : Generator).run (calls.take n)).1.length = n := by
    rw [length_run, List.length_take, Nat.min_eq_left hn.le]
  refine ⟨firstFree (({} : Generator).run (calls.take n)).2.used calls[n].candidate, ?_, ?_⟩
  · rw [hids, run_append, run_cons, List.getElem?_append_right hlength.le, hlength, Nat.sub_self]
    rfl
  · have hset : {taken | taken ∈ (({} : Generator).run (calls.take n)).2.used} =
        {taken | taken ∈ ids.take n} := Set.ext (hused n)
    exact hset ▸ firstFree_spec _ _

end MarkupIds.Generator
