import MarkupIds.Proofs.Text.Cut
import MarkupIds.Proofs.Xml.Reading
import MarkupIds.Xml.Aside
import MarkupIds.Xml.Declaration

/-! Comments, instructions, sections of character data and declarations end at the first mark that can close
them. -/

namespace MarkupIds.Xml

open MarkupIds.Text (after? cutAt cutBy)

/-- The first mark in a text, and what follows it. -/
def EndsAt (mark s rest : List Char) : Prop := ∃ before, cutAt mark s = some (before, rest)

namespace EndsAt

variable {mark s rest : List Char}

theorem here (hne : mark ≠ []) (rest : List Char) : EndsAt mark (mark ++ rest) rest := by
  refine ⟨[], ?_⟩
  have hafter : after? mark (mark ++ rest) = some rest := Text.after?_eq_some_iff.mpr rfl
  cases hmark : mark with
  | nil => exact absurd hmark hne
  | cons c mark' =>
      rw [hmark] at hafter
      rw [cutAt, List.cons_append, cutBy, ← List.cons_append, hafter]

theorem cons {c : Char} (hc : after? mark (c :: s) = none) (h : EndsAt mark s rest) :
    EndsAt mark (c :: s) rest := by
  obtain ⟨before, hbefore⟩ := h
  refine ⟨c :: before, ?_⟩
  unfold cutAt at hbefore ⊢
  rw [cutBy, hc]
  dsimp only
  rw [hbefore]
  rfl

/-- A run in which the mark cannot begin. -/
theorem append {d : Char} {mark' run : List Char} (hmark : mark = d :: mark') (hrun : d ∉ run)
    (h : EndsAt mark s rest) : EndsAt mark (run ++ s) rest := by
  induction run with
  | nil => exact h
  | cons c run ih =>
      obtain ⟨hc, hrun⟩ := not_or.mp (mt List.mem_cons.mpr hrun)
      refine EndsAt.cons ?_ (ih hrun)
      rw [hmark]
      simp [after?, hc]

theorem unique {rest' : List Char} (h : EndsAt mark s rest) (h' : EndsAt mark s rest') : rest = rest' := by
  obtain ⟨before, hbefore⟩ := h
  obtain ⟨before', hbefore'⟩ := h'
  rw [hbefore] at hbefore'
  cases hbefore'
  rfl

end EndsAt

namespace Reading

variable {s t : State}

/-- Two characters in front of a mark that they do not begin. -/
theorem after?_pair_eq_none {c d a b : Char} {mark s : List Char} (h : ¬ (a = c ∧ b = d)) :
    after? (c :: d :: mark) (a :: b :: s) = none := by
  by_contra hsome
  obtain ⟨r, hr⟩ := Option.ne_none_iff_exists'.mp hsome
  obtain ⟨ha, hr⟩ := List.cons.inj (Text.after?_eq_some_iff.mp hr)
  exact h ⟨ha, (List.cons.inj hr).1⟩

theorem commentEnd_eq_ok {fuel : Nat} {before content : List Char} {a b : Char}
    (h : commentEnd fuel before a b s = .ok (content, t)) :
    EndsAt ['-', '-', '>'] (a :: b :: s.rest) t.rest := by
  induction fuel generalizing before a b s with
  | zero => exact absurd h fail_eq_ok
  | succ fuel ih =>
      rw [commentEnd] at h
      have h := of_bind_noNull h
      rw [bind_peek_apply] at h
      generalize hhead : s.rest.head? = head at h
      split at h
      next => exact absurd h fail_eq_ok
      next c =>
        have hrest := cons_of_head? hhead
        split at h
        next => exact absurd h fail_eq_ok
        split at h
        next hhyphens =>
          split at h
          next hc =>
            rw [bind_skip_apply] at h
            obtain ⟨rfl, rfl⟩ := pure_eq_ok.mp h
            simp only [Bool.and_eq_true, beq_iff_eq] at hhyphens hc
            rw [State.rest_advance, hrest, hhyphens.1, hhyphens.2, hc]
            exact EndsAt.here (by decide) _
          next => exact absurd h fail_eq_ok
        next hhyphens =>
          rw [bind_skip_apply] at h
          have hmore := ih h
          rw [State.rest_advance] at hmore
          rw [hrest]
          refine hmore.cons (after?_pair_eq_none ?_)
          simpa using hhyphens

theorem commentChar_eq_ok {c : Char} (h : commentChar s = .ok (c, t)) : s.rest = c :: t.rest := by
  unfold commentChar at h
  have h := of_bind_noNull h
  rw [bind_peek_apply] at h
  generalize hhead : s.rest.head? = head at h
  split at h
  next => exact absurd h fail_eq_ok
  next =>
    split at h
    next =>
      rw [bind_skip_apply] at h
      obtain ⟨rfl, rfl⟩ := pure_eq_ok.mp h
      rw [State.rest_advance]
      exact cons_of_head? hhead
    next => exact absurd h fail_eq_ok

theorem commentClosely_eq_ok {before content : List Char} (h : commentClosely before s = .ok (content, t)) :
    EndsAt ['-', '-', '>'] s.rest t.rest := by
  unfold commentClosely at h
  obtain ⟨a, m, ha, h⟩ := bind_eq_ok.mp h
  obtain ⟨b, m', hb, h⟩ := bind_eq_ok.mp h
  have h := of_bind_noNull h
  rw [bind_peek_apply] at h
  split at h
  next => exact absurd h fail_eq_ok
  next =>
    rw [commentChar_eq_ok ha, commentChar_eq_ok hb]
    exact commentEnd_eq_ok h

theorem commentFrom_eq_ok {fuel : Nat} {before content : List Char}
    (h : commentFrom fuel before s = .ok (content, t)) : EndsAt ['-', '-', '>'] s.rest t.rest := by
  induction fuel generalizing before s with
  | zero => exact commentClosely_eq_ok h
  | succ fuel ih =>
      rw [commentFrom, bind_remaining_apply] at h
      generalize hrest : s.rest = rest at h
      split at h
      next r =>
        rw [bind_skip_apply] at h
        obtain ⟨rfl, rfl⟩ := pure_eq_ok.mp h
        rw [State.rest_advance, hrest]
        exact EndsAt.here (by decide) r
      next =>
        split at h
        · exact absurd h fail_eq_ok
        · exact absurd h fail_eq_ok
      next c r hclose hopen =>
        split at h
        next =>
          rw [bind_skip_apply] at h
          have hmore := ih h
          rw [State.rest_advance, hrest] at hmore
          refine hmore.cons ?_
          by_contra hsome
          obtain ⟨u, hu⟩ := Option.ne_none_iff_exists'.mp hsome
          have hmark := Text.after?_eq_some_iff.mp hu
          exact hclose u (List.cons.inj hmark).1 (List.cons.inj hmark).2
        next => exact hrest ▸ commentClosely_eq_ok h
      next => exact hrest ▸ commentClosely_eq_ok h

/-- A comment ends at the first mark that closes it. -/
theorem comment_eq_ok {piece : Piece} (h : comment s = .ok (piece, t)) :
    EndsAt ['-', '-', '>'] (s.rest.drop 4) t.rest ∧ ∃ kind content, piece = .text kind content := by
  unfold comment at h
  rw [bind_skip_apply, bind_remaining_apply] at h
  obtain ⟨content, m, hcomment, h⟩ := bind_eq_ok.mp h
  obtain ⟨rfl, rfl⟩ := pure_eq_ok.mp h
  have hends := commentFrom_eq_ok hcomment
  rw [State.rest_advance] at hends
  exact ⟨hends, _, _, rfl⟩

theorem sectionEnd_eq_ok {fuel : Nat} {before content : List Char} {a b : Char}
    (h : sectionEnd fuel before a b s = .ok (content, t)) :
    EndsAt [']', ']', '>'] (a :: b :: s.rest) t.rest := by
  induction fuel generalizing before a b s with
  | zero => exact absurd h fail_eq_ok
  | succ fuel ih =>
      rw [sectionEnd] at h
      have h := of_bind_noNull h
      rw [bind_peek_apply] at h
      generalize hhead : s.rest.head? = head at h
      split at h
      next => exact absurd h fail_eq_ok
      next c =>
        have hrest := cons_of_head? hhead
        split at h
        next hclose =>
          rw [bind_skip_apply] at h
          obtain ⟨rfl, rfl⟩ := pure_eq_ok.mp h
          simp only [Bool.and_eq_true, beq_iff_eq] at hclose
          rw [State.rest_advance, hrest, hclose.1.1, hclose.1.2, hclose.2]
          exact EndsAt.here (by decide) _
        next hclose =>
          split at h
          next =>
            rw [bind_skip_apply] at h
            have hmore := ih h
            rw [State.rest_advance] at hmore
            rw [hrest]
            refine hmore.cons ?_
            by_contra hsome
            obtain ⟨u, hu⟩ := Option.ne_none_iff_exists'.mp hsome
            obtain ⟨ha, hmark⟩ := List.cons.inj (Text.after?_eq_some_iff.mp hu)
            obtain ⟨hb, hmark⟩ := List.cons.inj hmark
            obtain ⟨hc, -⟩ := List.cons.inj hmark
            exact hclose (by simp [ha, hb, hc])
          next => exact absurd h fail_eq_ok

theorem sectionChar_eq_ok {c : Char} (h : sectionChar s = .ok (c, t)) : s.rest = c :: t.rest := by
  unfold sectionChar at h
  have h := of_bind_noNull h
  rw [bind_peek_apply] at h
  generalize hhead : s.rest.head? = head at h
  split at h
  next => exact absurd h fail_eq_ok
  next =>
    split at h
    next =>
      rw [bind_skip_apply] at h
      obtain ⟨rfl, rfl⟩ := pure_eq_ok.mp h
      rw [State.rest_advance]
      exact cons_of_head? hhead
    next => exact absurd h fail_eq_ok

/-- A section of character data ends at the first mark that closes it. -/
theorem characterSection_eq_ok {piece : Piece} (h : characterSection s = .ok (piece, t)) :
    EndsAt [']', ']', '>'] (s.rest.drop 9) t.rest ∧ ∃ kind content, piece = .text kind content := by
  unfold characterSection at h
  rw [bind_skip_apply] at h
  obtain ⟨a, m, ha, h⟩ := bind_eq_ok.mp h
  obtain ⟨b, m', hb, h⟩ := bind_eq_ok.mp h
  rw [bind_remaining_apply] at h
  obtain ⟨content, k, hsection, h⟩ := bind_eq_ok.mp h
  obtain ⟨rfl, rfl⟩ := pure_eq_ok.mp h
  have hends := sectionEnd_eq_ok hsection
  rw [← sectionChar_eq_ok hb, ← sectionChar_eq_ok ha, State.rest_advance] at hends
  exact ⟨hends, _, _, rfl⟩

theorem instructionEnd_eq_ok {name content : List Char} {fuel : Nat}
    (h : instructionEnd name fuel s = .ok (content, t)) : EndsAt ['?', '>'] s.rest t.rest := by
  induction fuel generalizing content s with
  | zero => exact absurd h fail_eq_ok
  | succ fuel ih =>
      rw [instructionEnd] at h
      have h := of_bind_noNull h
      rw [bind_remaining_apply] at h
      generalize hrest : s.rest = rest at h
      split at h
      next r =>
        rw [bind_skip_apply] at h
        obtain ⟨rfl, rfl⟩ := pure_eq_ok.mp h
        rw [State.rest_advance, hrest]
        exact EndsAt.here (by decide) r
      next c r hclose =>
        split at h
        next =>
          rw [bind_skip_apply] at h
          obtain ⟨more, m, hmore, h⟩ := bind_eq_ok.mp h
          obtain ⟨-, rfl⟩ := pure_eq_ok.mp h
          have hends := ih hmore
          rw [State.rest_advance, hrest] at hends
          refine hends.cons ?_
          by_contra hsome
          obtain ⟨u, hu⟩ := Option.ne_none_iff_exists'.mp hsome
          have hmark := Text.after?_eq_some_iff.mp hu
          exact hclose u (List.cons.inj hmark).1 (List.cons.inj hmark).2
        next => exact absurd h fail_eq_ok
      next => exact absurd h fail_eq_ok

/-- The name of an instruction is passed as it is written. -/
theorem target_eq_ok {n : List Char} (h : target s = .ok (n, t)) :
    s.rest = n ++ t.rest ∧ ∀ c ∈ n, isNameChar c = true := by
  unfold target at h
  obtain ⟨n', m, hname, h⟩ := bind_eq_ok.mp h
  suffices hkept : n' = n ∧ t.rest = m.rest by
    rw [← hkept.1, hkept.2]
    exact ran_name hname
  have hlast {k : State} (h : (if n'.contains ':' then note (.targetWithColon (String.ofList n')) >>= fun _ => pure n'
      else pure n') k = .ok (n, t)) : n' = n ∧ t.rest = k.rest := by
    split at h
    next =>
      rw [bind_note_apply] at h
      obtain ⟨rfl, rfl⟩ := pure_eq_ok.mp h
      exact ⟨rfl, rfl⟩
    next =>
      obtain ⟨rfl, rfl⟩ := pure_eq_ok.mp h
      exact ⟨rfl, rfl⟩
  dsimp only at h
  split at h
  · split at h
    · exact absurd h fail_eq_ok
    split at h
    · exact absurd h fail_eq_ok
    split at h
    · rw [bind_note_apply] at h
      exact hlast (k := { m with problems := m.problem .targetDiscouraged :: m.problems }) h
    · exact hlast h
  · exact hlast h

/-- An instruction ends at the first mark that closes it. -/
theorem instruction_eq_ok {piece : Piece} (h : instruction s = .ok (piece, t)) :
    EndsAt ['?', '>'] (s.rest.drop 2) t.rest ∧ ∃ kind content, piece = .text kind content := by
  unfold instruction at h
  rw [bind_skip_apply] at h
  obtain ⟨n, m, htarget, h⟩ := bind_eq_ok.mp h
  obtain ⟨hrest, hname⟩ := target_eq_ok htarget
  rw [State.rest_advance] at hrest
  have hmark : '?' ∉ n := fun hmem => absurd (hname _ hmem) (by decide)
  suffices hrun : EndsAt ['?', '>'] m.rest t.rest ∧ ∃ kind content, piece = .text kind content by
    rw [hrest]
    exact ⟨EndsAt.append rfl hmark hrun.1, hrun.2⟩
  dsimp only at h
  obtain ⟨-, h⟩ | ⟨-, h⟩ := of_ite h
  · exact absurd h fail_eq_ok
  obtain ⟨closed, k, haccept, h⟩ := bind_eq_ok.mp h
  cases closed with
  | true =>
      obtain ⟨rfl, rfl⟩ := pure_eq_ok.mp h
      rw [accept_true haccept]
      exact ⟨EndsAt.here (by decide) _, _, _, rfl⟩
  | false =>
      obtain ⟨-, hkept⟩ := accept_false haccept
      rw [hkept] at h
      obtain ⟨u, k₁, hspace, h⟩ := bind_eq_ok.mp h
      obtain ⟨-, hspaces⟩ := someSpace_eq_ok hspace
      rw [bind_remaining_apply] at h
      obtain ⟨content, k₂, hend, h⟩ := bind_eq_ok.mp h
      obtain ⟨rfl, rfl⟩ := pure_eq_ok.mp h
      have hends := instructionEnd_eq_ok hend
      rw [hspaces] at hends
      refine ⟨?_, _, _, rfl⟩
      rw [← List.takeWhile_append_dropWhile (p := isSpace) (l := m.rest)]
      refine EndsAt.append rfl (fun hmem => ?_) hends
      exact absurd (List.mem_takeWhile_imp hmem) (by decide)

section Declaration

/-- A reading that passes characters of one kind only. -/
def Passes {α : Type} (p : Char → Prop) (x : Reading α) : Prop :=
  ∀ s a t, x s = .ok (a, t) → ∃ run, s.rest = run ++ t.rest ∧ ∀ c ∈ run, p c

variable {α β : Type} {p : Char → Prop}

namespace Passes

theorem pure (a : α) : Passes p (Pure.pure a) := fun _ _ _ h => by
  rw [(pure_eq_ok.mp h).2]
  exact ⟨[], rfl, List.forall_mem_nil _⟩

theorem fail (cause : Cause) : Passes p (Reading.fail cause : Reading α) := fun _ _ _ h => absurd h fail_eq_ok

theorem of_keeps {x : Reading α} (hx : Keeps x) : Passes p x := fun s a t h =>
  ⟨[], (hx s a t h).symm, List.forall_mem_nil _⟩

theorem bind {x : Reading α} {f : α → Reading β} (hx : Passes p x) (hf : ∀ a, Passes p (f a)) :
    Passes p (x >>= f) := fun s b t h => by
  obtain ⟨a, m, hfirst, hrest⟩ := bind_eq_ok.mp h
  obtain ⟨run, hrun, hall⟩ := hx s a m hfirst
  obtain ⟨run', hrun', hall'⟩ := hf a m b t hrest
  exact ⟨run ++ run', by rw [hrun, hrun', List.append_assoc],
    fun c hc => (List.mem_append.mp hc).elim (hall c) (hall' c)⟩

theorem takeWhile {q : Char → Bool} (hq : ∀ c, q c = true → p c) : Passes p (takeWhile q) := fun _ a _ h =>
  ⟨a, (ran_takeWhile h).text_eq, fun c hc => hq c ((ran_takeWhile h).all c hc)⟩

theorem spaces (hp : ∀ c, isSpace c = true → p c) : Passes p spaces :=
  (takeWhile hp).bind fun _ => .pure _

theorem accept {mark : List Char} (hmark : ∀ c ∈ mark, p c) : Passes p (accept mark) := fun s b t h => by
  cases b with
  | true => exact ⟨mark, accept_true h, hmark⟩
  | false =>
      rw [(accept_false h).2]
      exact ⟨[], rfl, List.forall_mem_nil _⟩

theorem expect {mark : List Char} {cause : Cause} (hmark : ∀ c ∈ mark, p c) : Passes p (expect mark cause) :=
  fun _ _ _ h => ⟨mark, expect_eq_ok h, hmark⟩

end Passes

/-- Inside of a declaration there are no question marks. -/
def IsInside (c : Char) : Prop := c ≠ '?'

theorem isInside_of {p : Char → Bool} (hp : p '?' = false) (c : Char) (hc : p c = true) : IsInside c := by
  rintro rfl
  rw [hp] at hc
  cases hc

/-- A mark without question marks. -/
theorem isInside_mark {mark : List Char} (h : '?' ∉ mark) : ∀ c ∈ mark, IsInside c :=
  fun _ hc heq => h (heq ▸ hc)

theorem passes_spaces : Passes IsInside spaces := .spaces (isInside_of (by decide))

/-- The quote that opens a part of the declaration stands inside of it as well. -/
theorem passes_equalAndQuote {f : Char → Reading β} (hf : ∀ quote, IsInside quote → Passes IsInside (f quote)) :
    Passes IsInside (equalAndQuote >>= f) := by
  intro s b t h
  obtain ⟨quote, m, hquote, hrest⟩ := bind_eq_ok.mp h
  unfold equalAndQuote at hquote
  obtain ⟨b₁, m₁, hspaces, hquote⟩ := bind_eq_ok.mp hquote
  obtain ⟨u, m₂, hequals, hquote⟩ := bind_eq_ok.mp hquote
  obtain ⟨b₂, m₃, hspaces', hquote⟩ := bind_eq_ok.mp hquote
  obtain ⟨before, hbefore, hblank⟩ := passes_spaces _ _ _ hspaces
  obtain ⟨behind, hbehind, hblank'⟩ := passes_spaces _ _ _ hspaces'
  rw [bind_peek_apply] at hquote
  generalize hhead : m₃.rest.head? = head at hquote
  split at hquote
  next c =>
    obtain ⟨hmark, hquote⟩ | ⟨-, hquote⟩ := of_ite hquote
    · rw [bind_skip_apply] at hquote
      obtain ⟨rfl, rfl⟩ := pure_eq_ok.mp hquote
      have hc : IsInside c := isInside_of (p := fun c => c == '"' || c == '\'') (by decide) c hmark
      obtain ⟨run, hrun, hall⟩ := hf c hc _ _ _ hrest
      rw [State.rest_advance] at hrun
      refine ⟨before ++ '=' :: (behind ++ c :: run), ?_, ?_⟩
      · rw [hbefore, expect_eq_ok hequals, hbehind, cons_of_head? hhead, hrun]
        simp
      · simp only [List.forall_mem_append, List.forall_mem_cons]
        exact ⟨hblank, by unfold IsInside; decide, hblank', hc, hall⟩
    · exact absurd hquote fail_eq_ok
  next => exact absurd hquote fail_eq_ok

theorem passes_versionNumber : Passes IsInside versionNumber := by
  intro s number t h
  unfold versionNumber at h
  rw [bind_remaining_apply] at h
  generalize hrest : s.rest = rest at h ⊢
  have hdigit (c : Char) := isInside_of (p := Text.isDigit) (by decide) c
  split at h
  next a r =>
    obtain ⟨ha, h⟩ | ⟨-, h⟩ := of_ite h
    · rw [bind_skip_apply] at h
      obtain ⟨digits, m, hdigits, h⟩ := bind_eq_ok.mp h
      obtain ⟨-, rfl⟩ := pure_eq_ok.mp h
      have hran := ran_takeWhile hdigits
      have htext := hran.text_eq
      rw [State.rest_advance, hrest] at htext
      refine ⟨a :: '.' :: digits, by rw [show r = _ from htext]; rfl, ?_⟩
      simp only [List.forall_mem_cons]
      exact ⟨hdigit a ha, by unfold IsInside; decide, fun c hc => hdigit c (hran.all c hc)⟩
    · rw [← (pure_eq_ok.mp h).2, hrest]
      exact ⟨[], rfl, List.forall_mem_nil _⟩
  next a r _ =>
    dsimp only at h
    obtain ⟨ha, h⟩ | ⟨-, h⟩ := of_ite h
    · rw [bind_skip_apply] at h
      rw [← (pure_eq_ok.mp h).2, State.rest_advance, hrest]
      exact ⟨[a], rfl, by simpa using hdigit a ha⟩
    · rw [← (pure_eq_ok.mp h).2, hrest]
      exact ⟨[], rfl, List.forall_mem_nil _⟩
  next =>
    rw [← (pure_eq_ok.mp h).2, hrest]
    exact ⟨[], rfl, List.forall_mem_nil _⟩

theorem passes_version : Passes IsInside version := by
  unfold version
  have hend (quote : Char) (hquote : IsInside quote) : Passes IsInside (do
      let number ← versionNumber
      expect [quote] .stringNotClosed
      if number.isEmpty then fail .versionMissing
      else if number != "1.0".toList then
        if number.take 2 == ['1', '.'] then note (.unsupportedVersion (String.ofList number))
        else fail (.unsupportedVersion (String.ofList number)) : Reading Unit) := by
    refine passes_versionNumber.bind fun number => (Passes.expect (by simpa using hquote)).bind fun _ => ?_
    exact .of_keeps ((Keeps.fail _).ite (((Keeps.note _).ite (.fail _)).ite (.pure _)))
  refine passes_spaces.bind fun _ => (Passes.accept (isInside_mark (by decide))).bind fun found => ?_
  dsimp only
  split
  · exact passes_equalAndQuote hend
  · exact (Passes.fail _).bind fun _ => passes_equalAndQuote hend

theorem passes_encoding : Passes IsInside encoding := by
  unfold encoding
  refine passes_spaces.bind fun _ => (Passes.accept (isInside_mark (by decide))).bind fun found => ?_
  split
  · refine passes_equalAndQuote fun quote hquote => ?_
    have hname : Passes IsInside (do
        let _ ← takeWhile isEncodingChar
        expect [quote] .stringNotClosed
        return true : Reading Bool) :=
      (Passes.takeWhile (isInside_of (by decide))).bind fun _ =>
        (Passes.expect (by simpa using hquote)).bind fun _ => .pure _
    refine (Passes.of_keeps Keeps.peek).bind fun first => ?_
    dsimp only
    split
    · split
      · exact hname
      · exact (Passes.fail _).bind fun _ => hname
    · exact (Passes.fail _).bind fun _ => hname
  · exact .pure _

theorem passes_standalone : Passes IsInside standalone := by
  unfold standalone
  refine passes_spaces.bind fun _ => (Passes.accept (isInside_mark (by decide))).bind fun found => ?_
  split
  · refine passes_equalAndQuote fun quote hquote => ?_
    have hclose : Passes IsInside (expect [quote] .stringNotClosed) := .expect (by simpa using hquote)
    refine (Passes.accept (isInside_mark (by decide))).bind fun yes => ?_
    dsimp only
    split
    · exact (Passes.of_keeps (Keeps.declare _)).bind fun _ => hclose
    · refine (Passes.accept (isInside_mark (by decide))).bind fun no => ?_
      split
      · exact hclose
      · exact (Passes.fail _).bind fun _ => hclose
  · exact .pure _

theorem keeps_endOrSpace : Keeps endOrSpace := by
  unfold endOrSpace
  refine Keeps.remaining.bind fun rest => ?_
  split
  · exact .pure _
  · exact (Keeps.pure _).ite (.fail _)
  · exact .fail _

/-- A reading that ends where the declaration does. -/
def EndsDeclaration (x : Reading Unit) : Prop := ∀ s u t, x s = .ok (u, t) → EndsAt ['?', '>'] s.rest t.rest

theorem EndsDeclaration.bind {x : Reading α} {f : α → Reading Unit} (hx : Passes IsInside x)
    (hf : ∀ a, EndsDeclaration (f a)) : EndsDeclaration (x >>= f) := by
  intro s u t h
  obtain ⟨a, m, hfirst, hrest⟩ := bind_eq_ok.mp h
  obtain ⟨run, hrun, hall⟩ := hx _ _ _ hfirst
  rw [hrun]
  exact EndsAt.append rfl (fun hmem => hall _ hmem rfl) (hf a _ _ _ hrest)

/-- A declaration ends at the first mark that closes it. -/
theorem declaration_eq_ok {u : Unit} (h : declaration s = .ok (u, t)) :
    EndsAt ['?', '>'] (s.rest.drop 5) t.rest := by
  have hclose : EndsDeclaration (expect ['?', '>'] .declarationNotFinished) := fun s u t h => by
    rw [expect_eq_ok h]
    exact EndsAt.here (by decide) _
  have hlast (atEnd : Bool) : EndsDeclaration (if atEnd then expect ['?', '>'] .declarationNotFinished else do
      standalone
      let _ ← spaces
      expect ['?', '>'] .declarationNotFinished) := by
    split
    · exact hclose
    · exact .bind passes_standalone fun _ => .bind passes_spaces fun _ => hclose
  unfold declaration at h
  rw [bind_skip_apply] at h
  rw [← State.rest_advance]
  refine EndsDeclaration.bind passes_version (fun _ => ?_) _ _ _ h
  refine .bind (.of_keeps keeps_endOrSpace) fun atEnd => ?_
  dsimp only
  split
  · exact hclose
  · refine .bind passes_encoding fun encoded => ?_
    split
    · exact .bind (.of_keeps keeps_endOrSpace) hlast
    · exact .bind (.pure false) hlast

end Declaration

end Reading

end MarkupIds.Xml
