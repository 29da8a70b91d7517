import Mathlib.Data.List.DropRight
import Mathlib.Data.List.TakeWhile
import MarkupIds.Proofs.Text.Cut
import MarkupIds.Text.Blank

/-! Regular expressions as a matcher with backtracking takes them: choices are tried in order, a repetition tries one
more round before or after it goes on, and what follows in the expression decides whether a choice stands. -/

namespace MarkupIds.Text

/-- A regular expression. -/
inductive Regex where
  | text (mark : List Char)
  | one (p : Char → Bool)
  | seq (first second : Regex)
  | either (first second : Regex)
  /-- As many rounds as can be, or with `greedy` unset as few. -/
  | repeated (greedy : Bool) (round : Regex)
  | group (name : String) (body : Regex)

namespace Regex

instance : Append Regex := ⟨seq⟩

instance : OrOp Regex := ⟨either⟩

/-- Any number of rounds, the most first. -/
def many (r : Regex) : Regex := repeated true r

/-- Any number of rounds, the fewest first. -/
def few (r : Regex) : Regex := repeated false r

/-- One character or more. -/
def run1 (p : Char → Bool) : Regex := one p ++ many (one p)

/-- The expression or nothing. -/
def opt (r : Regex) : Regex := r ||| text []

/-- The texts of the groups that were passed, in their order. -/
abbrev Groups := List (String × List Char)

/-- What was passed of `s` where `rest` is left of it. -/
def passed (s rest : List Char) : List Char := s.take (s.length - rest.length)

variable {α : Type}

/-- Rounds of a repetition, each of which has to pass something; `fuel` bounds their number. -/
def rounds (greedy : Bool) (round : (Groups → List Char → Option α) → Groups → List Char → Option α)
    (next : Groups → List Char → Option α) : Nat → Groups → List Char → Option α
  | 0, _, _ => none
  | fuel + 1, g, s =>
    let more := round (fun g' s' => if s'.length < s.length then rounds greedy round next fuel g' s' else none) g s
    if greedy then more.orElse fun _ => next g s else (next g s).orElse fun _ => more

/-- The first way through the expression from which `next` can go on. -/
def run : Regex → (Groups → List Char → Option α) → Groups → List Char → Option α
  | text mark, next, g, s => (after? mark s).bind (next g)
  | one _, _, _, [] => none
  | one p, next, g, c :: s => if p c then next g s else none
  | seq first second, next, g, s => run first (run second next) g s
  | either first second, next, g, s => (run first next g s).orElse fun _ => run second next g s
  | repeated greedy round, next, g, s => rounds greedy (run round) next (s.length + 1) g s
  | group name body, next, g, s => run body (fun g' rest => next (g' ++ [(name, passed s rest)]) rest) g s

/-- A match at the start of a text. -/
structure Match where
  groups : Groups
  text : List Char
  rest : List Char
deriving DecidableEq, Repr

/-- The match at the start of a text. -/
def first (r : Regex) (s : List Char) : Option Match :=
  r.run (fun g rest => some ⟨g, passed s rest, rest⟩) [] s

/-- The groups of a match of the whole text. -/
def full (r : Regex) (s : List Char) : Option Groups :=
  r.run (fun g rest => if rest.isEmpty then some g else none) [] s

/-- The first place at which there is a match, and what stands before it. -/
def search (r : Regex) : List Char → Option (List Char × Match)
  | [] => (r.first []).map fun m => ([], m)
  | c :: s =>
    match r.first (c :: s) with
    | some m => some ([], m)
    | none => (search r s).map fun (gap, m) => (c :: gap, m)

/-- A match that was searched for, with what was left out before it. -/
structure Finding where
  gap : List Char
  text : List Char
  groups : Groups
deriving DecidableEq, Repr

/-- At most `fuel` matches of an expression that passes something, one searched for behind the other, and what is left
out behind the last. -/
def findFrom (r : Regex) : Nat → List Char → List Finding × List Char
  | 0, s => ([], s)
  | fuel + 1, s =>
    match r.search s with
    | none => ([], s)
    | some (gap, m) =>
      let (others, rest) := findFrom r fuel m.rest
      (⟨gap, m.text, m.groups⟩ :: others, rest)

/-- The matches in a text, and what is left out behind the last. -/
def findAll (r : Regex) (s : List Char) : List Finding × List Char := findFrom r (s.length + 1) s

/-- At most `fuel` matches, each at the end of the one before, and what follows the last. -/
def chainFrom (r : Regex) : Nat → List Char → List Match × List Char
  | 0, s => ([], s)
  | fuel + 1, s =>
    match r.first s with
    | none => ([], s)
    | some m =>
      let (others, rest) := chainFrom r fuel m.rest
      (m :: others, rest)

/-- The matches from the start of a text on, each at the end of the one before, and what follows the last. -/
def chain (r : Regex) (s : List Char) : List Match × List Char := chainFrom r (s.length + 1) s

theorem passed_append (u rest : List Char) : passed (u ++ rest) rest = u := by
  rw [passed, List.length_append, Nat.add_sub_cancel, List.take_left]

section Run

variable {next : Groups → List Char → Option α} {g : Groups} {s : List Char} {p : Char → Bool}

theorem run_text (mark : List Char) : (text mark).run next g s = (after? mark s).bind (next g) := rfl

theorem run_nil_text : (text []).run next g s = next g s := by
  rw [run_text, after?_eq_some_iff.mpr (List.nil_append s).symm, Option.bind_some]

theorem run_char_self {c : Char} (t : List Char) : (text [c]).run next g (c :: t) = next g t := by
  rw [run_text, after?_cons_self, Option.bind_some]

theorem run_char_of_ne {c d : Char} (h : c ≠ d) (t : List Char) : (text [c]).run next g (d :: t) = none := by
  rw [run_text]
  cases hafter : after? [c] (d :: t) with
  | none => rfl
  | some rest => exact absurd (List.cons.inj (after?_eq_some_iff.mp hafter)).1.symm h

theorem run_one_nil : (one p).run next g [] = none := rfl

theorem run_one_cons (c : Char) (t : List Char) : (one p).run next g (c :: t) = if p c then next g t else none :=
  rfl

theorem run_append (a b : Regex) : (a ++ b).run next g s = a.run (b.run next) g s := rfl

theorem run_or (a b : Regex) : (a ||| b).run next g s = (a.run next g s).orElse fun _ => b.run next g s :=
  rfl

theorem run_group (name : String) (r : Regex) : (group name r).run next g s =
    r.run (fun g' rest => next (g' ++ [(name, passed s rest)]) rest) g s := rfl

theorem run_repeated (greedy : Bool) (round : Regex) : (repeated greedy round).run next g s =
    rounds greedy round.run next (s.length + 1) g s := rfl

/-- Enough rounds are enough. -/
theorem rounds_eq {greedy : Bool} {round : (Groups → List Char → Option α) → Groups → List Char → Option α}
    {n m : Nat} (hn : s.length < n) (hm : s.length < m) :
    rounds greedy round next n g s = rounds greedy round next m g s := by
  induction n generalizing m g s with
  | zero => exact absurd hn (Nat.not_lt_zero _)
  | succ n ih =>
      obtain ⟨m, rfl⟩ : ∃ k, m = k + 1 := ⟨m - 1, by omega⟩
      have hnext : (fun g' (s' : List Char) => if s'.length < s.length then rounds greedy round next n g' s' else none) =
          fun g' s' => if s'.length < s.length then rounds greedy round next m g' s' else none := by
        funext g' s'
        split
        next hless => exact ih (by omega) (by omega)
        next => rfl
      rw [rounds, rounds, hnext]

/-- The rounds that follow one that passed something. -/
def again (r : Regex) (next : Groups → List Char → Option α) (s : List Char) (g : Groups) (rest : List Char) : Option α :=
  if rest.length < s.length then r.run next g rest else none

theorem again_of_lt {r : Regex} {rest : List Char} (h : rest.length < s.length) : again r next s g rest = r.run next g rest :=
  if_pos h

theorem again_rounds {greedy : Bool} (r : Regex) : again (repeated greedy r) next s =
    fun g' s' => if s'.length < s.length then rounds greedy r.run next s.length g' s' else none := by
  funext g' s'
  unfold again
  split
  next hless =>
    rw [run_repeated]
    exact rounds_eq (Nat.lt_succ_self _) hless
  next => rfl

theorem run_many (r : Regex) : (many r).run next g s = (r.run (again (many r) next s) g s).orElse fun _ => next g s := by
  rw [many, again_rounds, run_repeated, rounds]
  rfl

/-- A round is given back where nothing can go on behind it. -/
example : (many (one (· == 'a')) ++ text ['a']).full ['a', 'a'] = some [] := by decide

theorem run_few (r : Regex) : (few r).run next g s = (next g s).orElse fun _ => r.run (again (few r) next s) g s := by
  rw [few, again_rounds, run_repeated, rounds]
  rfl

/-- Characters are passed up to the first one of another kind, if nothing can go on before it. -/
theorem run_many_one (h : ∀ g c t, p c = true → next g (c :: t) = none) :
    (many (one p)).run next g s = next g (s.dropWhile p) := by
  induction s with
  | nil => rw [run_many, run_one_nil]; rfl
  | cons c s ih =>
      rw [run_many, run_one_cons]
      by_cases hc : p c = true
      · rw [if_pos hc, again_of_lt (Nat.lt_succ_self _), ih, h g c s hc, List.dropWhile_cons_of_pos hc]
        cases next g (s.dropWhile p) <;> rfl
      · rw [if_neg hc, List.dropWhile_cons_of_neg hc]
        rfl

/-- Characters are passed up to the first one of another kind, if it is possible to go on from there. -/
theorem run_many_one_of_isSome (h : (next g (s.dropWhile p)).isSome) :
    (many (one p)).run next g s = next g (s.dropWhile p) := by
  induction s with
  | nil => rw [run_many, run_one_nil]; rfl
  | cons c s ih =>
      rw [run_many, run_one_cons]
      by_cases hc : p c = true
      · rw [List.dropWhile_cons_of_pos hc] at h ⊢
        obtain ⟨a, ha⟩ := Option.isSome_iff_exists.mp h
        rw [if_pos hc, again_of_lt (Nat.lt_succ_self _), ih h, ha]
        rfl
      · rw [if_neg hc, List.dropWhile_cons_of_neg hc]
        rfl

theorem run_run1 (h : ∀ g c t, p c = true → next g (c :: t) = none) :
    (run1 p).run next g s = if (s.takeWhile p).isEmpty then none else next g (s.dropWhile p) := by
  rw [run1, run_append]
  cases s with
  | nil => rfl
  | cons c s =>
      rw [run_one_cons]
      by_cases hc : p c = true
      · rw [if_pos hc, run_many_one h, List.takeWhile_cons_of_pos hc, List.dropWhile_cons_of_pos hc]
        rfl
      · rw [if_neg hc, List.takeWhile_cons_of_neg hc]
        rfl

theorem run_run1_of_isSome (h : ∀ g t, (next g t).isSome) :
    (run1 p).run next g s = if (s.takeWhile p).isEmpty then none else next g (s.dropWhile p) := by
  rw [run1, run_append]
  cases s with
  | nil => rfl
  | cons c s =>
      rw [run_one_cons]
      by_cases hc : p c = true
      · rw [if_pos hc, run_many_one_of_isSome (h g _), List.takeWhile_cons_of_pos hc, List.dropWhile_cons_of_pos hc]
        rfl
      · rw [if_neg hc, List.takeWhile_cons_of_neg hc]
        rfl

/-- The fewest characters are passed up to where an end is recognised. -/
theorem run_few_any {close : List Char → Option (List Char)} {f : Groups → List Char → α}
    (h : ∀ g t, next g t = (close t).map (f g)) :
    (few (one fun _ => true)).run next g s = (cutBy close s).map fun found => f g found.2 := by
  induction s with
  | nil =>
      rw [run_few, run_one_nil, h, cutBy]
      cases close [] <;> rfl
  | cons c s ih =>
      rw [run_few, run_one_cons, if_pos rfl, again_of_lt (Nat.lt_succ_self _), ih, h, cutBy]
      cases close (c :: s) with
      | some rest => rfl
      | none => cases cutBy close s <;> rfl

end Run

section Marks

variable {next : Groups → List Char → Option α} {g : Groups} {s : List Char}

/-- A text in quotes of one kind. -/
def quotedBy (quote : Char) : Regex := text [quote] ++ (many (one (· != quote)) ++ text [quote])

/-- The end of a start tag. -/
def tail : Regex := many (one isBlank) ++ (opt (text ['/']) ++ text ['>'])

theorem passed_dropWhile (p : Char → Bool) (s : List Char) : passed s (s.dropWhile p) = s.takeWhile p := by
  conv_lhs => rw [← List.takeWhile_append_dropWhile (p := p) (l := s)]
  rw [List.dropWhile_append_of_pos fun c => List.mem_takeWhile_imp, List.dropWhile_idempotent]
  exact passed_append _ _

theorem run_quotedBy_self (quote : Char) (t : List Char) :
    (quotedBy quote).run next g (quote :: t) = (cutAt [quote] t).bind fun found => next g found.2 := by
  have hstop {g : Groups} {c : Char} {t : List Char} (hc : (c != quote) = true) : (text [quote]).run next g (c :: t) = none :=
    run_char_of_ne (Ne.symm (bne_iff_ne.mp hc)) t
  rw [quotedBy, run_append, run_char_self, run_append, run_many_one fun _ _ _ hc => hstop hc]
  cases hcut : cutAt [quote] t with
  | none =>
      have hmem := Text.cutAt_singleton_eq_none_iff.mp hcut
      have hnil : t.dropWhile (· != quote) = [] :=
        List.dropWhile_eq_nil_iff.mpr fun c hc => by rw [bne_iff_ne]; rintro rfl; exact hmem hc
      rw [hnil]
      rfl
  | some found =>
      obtain ⟨value, rest⟩ := found
      obtain ⟨rfl, hmem⟩ := Text.cutAt_singleton_iff.mp hcut
      have hrest : (value ++ quote :: rest).dropWhile (· != quote) = quote :: rest := by
        rw [List.dropWhile_append_of_pos fun c hc => by rw [bne_iff_ne]; rintro rfl; exact hmem hc,
          List.dropWhile_cons_of_neg (by simp)]
      rw [hrest, run_char_self]
      rfl

theorem run_quotedBy_of_ne {quote c : Char} (h : quote ≠ c) (t : List Char) : (quotedBy quote).run next g (c :: t) = none := by
  rw [quotedBy, run_append, run_char_of_ne h]

/-- A mark that is not white space is found behind white space. -/
theorem run_blanks_mark {mark : Char} (hmark : isBlank mark = false) (r : Regex) :
    (many (one isBlank) ++ (text [mark] ++ r)).run next g s =
      (text [mark]).run (r.run next) g (s.dropWhile isBlank) := by
  have hstop {g : Groups} {c : Char} {t : List Char} (hc : isBlank c = true) :
      (text [mark] ++ r).run next g (c :: t) = none := by
    rw [run_append, run_char_of_ne]
    rintro rfl
    rw [hmark] at hc
    cases hc
  rw [run_append, run_many_one fun _ _ _ => hstop, run_append]

/-- The brackets at the end of a start tag, with a slash or without. -/
theorem run_slash_close : (opt (text ['/']) ++ text ['>']).run next g s =
    match s with
    | '>' :: rest => next g rest
    | '/' :: '>' :: rest => next g rest
    | _ => none := by
  rw [run_append, opt, run_or, run_nil_text]
  split
  next rest =>
    rw [run_char_of_ne (by decide), run_char_self]
    rfl
  next rest =>
    rw [run_char_self, run_char_self, run_char_of_ne (by decide)]
    cases next g rest <;> rfl
  next hclose hslash =>
    cases s with
    | nil => rfl
    | cons c s =>
        have hc : '>' ≠ c := fun heq => hclose s (by rw [heq])
        rw [run_char_of_ne hc]
        by_cases hmark : '/' = c
        · subst hmark
          rw [run_char_self]
          cases s with
          | nil => rfl
          | cons d s =>
              rw [run_char_of_ne fun heq => hslash s (by rw [heq])]
              rfl
        · rw [run_char_of_ne hmark]
          rfl

theorem run_slash_close_of_isBlank {c : Char} (hc : isBlank c = true) (t : List Char) :
    (opt (text ['/']) ++ text ['>']).run next g (c :: t) = none := by
  rw [run_slash_close]
  split
  next heq =>
    obtain ⟨rfl, -⟩ := List.cons.inj heq
    exact absurd hc (by decide)
  next heq =>
    obtain ⟨rfl, -⟩ := List.cons.inj heq
    exact absurd hc (by decide)
  next => rfl

end Marks

end Regex

end MarkupIds.Text
