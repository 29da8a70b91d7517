/-! Walks over trees with a stack of what is still to be done: a tree to enter, or the end of one to
leave. Such a walk does what the recursion over the trees does. -/

namespace MarkupIds

/-- How a walk goes through trees, and what it does to a state on the way. -/
structure Walk (Tree State : Type) where
  parts : Tree → List Tree
  ends : Tree → Bool
  enter : Tree → State → State
  leave : State → State

namespace Walk

inductive Task (Tree : Type) where
  | enter (tree : Tree)
  | leave

variable {Tree State : Type}

/-- One step of a walk. At the end it stays where it is. -/
def next (w : Walk Tree State) : List (Task Tree) × State → List (Task Tree) × State
  | ([], s) => ([], s)
  | (.leave :: tasks, s) => (tasks, w.leave s)
  | (.enter tree :: tasks, s) =>
    ((w.parts tree).map .enter ++ (if w.ends tree then .leave :: tasks else tasks), w.enter tree s)

def run (w : Walk Tree State) : Nat → List (Task Tree) × State → List (Task Tree) × State
  | 0, c => c
  | fuel + 1, c => w.run fuel (w.next c)

def total (steps : Tree → Nat) : List Tree → Nat
  | [] => 0
  | tree :: trees => steps tree + total steps trees

/-- The recursion over trees that a walk follows, and a bound on the steps that each tree takes. -/
structure Follows (w : Walk Tree State) (through : Tree → State → State) (steps : Tree → Nat) : Prop where
  through_eq : ∀ tree s, through tree s =
    (if w.ends tree then w.leave else id) ((w.parts tree).foldl (fun s part => through part s) (w.enter tree s))
  le_steps : ∀ tree, 1 + total steps (w.parts tree) + (if w.ends tree then 1 else 0) ≤ steps tree

namespace Follows

variable {w : Walk Tree State} {through : Tree → State → State} {steps : Tree → Nat}

def rest (w : Walk Tree State) (through : Tree → State → State) : List (Task Tree) → State → State
  | [], s => s
  | .enter tree :: tasks, s => rest w through tasks (through tree s)
  | .leave :: tasks, s => rest w through tasks (w.leave s)

def left (steps : Tree → Nat) : List (Task Tree) → Nat
  | [] => 0
  | .enter tree :: tasks => steps tree + left steps tasks
  | .leave :: tasks => 1 + left steps tasks

theorem rest_enter (trees : List Tree) (tasks : List (Task Tree)) (s : State) :
    rest w through (trees.map .enter ++ tasks) s =
      rest w through tasks (trees.foldl (fun s part => through part s) s) := by
  induction trees generalizing s with
  | nil => rfl
  | cons tree trees ih => exact ih (through tree s)

theorem left_enter (trees : List Tree) (tasks : List (Task Tree)) :
    left steps (trees.map .enter ++ tasks) = total steps trees + left steps tasks := by
  induction trees with
  | nil => exact (Nat.zero_add _).symm
  | cons tree trees ih =>
      rw [List.map_cons, List.cons_append, left, ih, total, Nat.add_assoc]

/-- A step leaves less to be done, and changes nothing of what comes out at the end. -/
theorem step (h : w.Follows through steps) {tasks : List (Task Tree)} (htasks : tasks ≠ []) (s : State) :
    left steps (w.next (tasks, s)).1 < left steps tasks ∧
      rest w through tasks s = rest w through (w.next (tasks, s)).1 (w.next (tasks, s)).2 := by
  match tasks, htasks with
  | .leave :: tasks, _ =>
    refine ⟨?_, rfl⟩
    simp only [next, left]
    omega
  | .enter tree :: tasks, _ =>
    have hle := h.le_steps tree
    simp only [next, left, rest, rest_enter, left_enter, h.through_eq tree s]
    cases hends : w.ends tree with
    | true =>
        simp only [hends, if_true] at hle
        simp only [if_true, left, rest]
        exact ⟨by omega, trivial⟩
    | false =>
        simp only [hends, Bool.false_eq_true, if_false] at hle
        simp only [Bool.false_eq_true, if_false, id]
        exact ⟨by omega, trivial⟩

theorem run_nil (w : Walk Tree State) (fuel : Nat) (s : State) : w.run fuel ([], s) = ([], s) := by
  induction fuel with
  | zero => rfl
  | succ fuel ih => exact ih

/-- The walk comes to its end with what the recursion gives. -/
theorem run_eq (h : w.Follows through steps) {fuel : Nat} {tasks : List (Task Tree)}
    (hfuel : left steps tasks ≤ fuel) (s : State) : w.run fuel (tasks, s) = ([], rest w through tasks s) := by
  induction fuel generalizing tasks s with
  | zero =>
      cases tasks with
      | nil => rfl
      | cons task tasks =>
          have hstep := (h.step (List.cons_ne_nil task tasks) s).1
          omega
  | succ fuel ih =>
      cases tasks with
      | nil => exact run_nil w _ s
      | cons task tasks =>
          obtain ⟨hleft, hrest⟩ := h.step (List.cons_ne_nil task tasks) s
          rw [hrest]
          exact ih (Nat.le_of_lt_succ (Nat.lt_of_lt_of_le hleft hfuel)) _

/-- So it does over trees one behind the other. -/
theorem run_enter (h : w.Follows through steps) (trees : List Tree) (s : State) :
    w.run (total steps trees) (trees.map .enter, s) = ([], trees.foldl (fun s tree => through tree s) s) := by
  have hleft : left steps (trees.map .enter ++ []) = total steps trees := left_enter trees []
  have hrest : rest w through (trees.map .enter ++ []) s = trees.foldl (fun s tree => through tree s) s :=
    rest_enter trees [] s
  rw [List.append_nil] at hleft hrest
  exact (h.run_eq (Nat.le_of_eq hleft) s).trans (congrArg _ hrest)

end Follows

end Walk

end MarkupIds
