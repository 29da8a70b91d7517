import MarkupIds.Proofs.Xml.Again
import MarkupIds.Proofs.Xml.Aside
import MarkupIds.Proofs.Xml.Elements
import MarkupIds.Xml.Content

/-! What stands between the tags is read once more as it was read: comments, instructions, sections of
character data, text, and the declaration. -/

namespace MarkupIds.Xml.Reading

variable {s t : State} {A : List Char → List Char → Prop}

section Comments

theorem noNull_apply {α : Type} {f : Unit → Reading α} {c : Char} {r : List Char} (hr : s.rest = c :: r)
    (hc : isXmlChar c = true) : (noNull >>= f) s = f () s := by
  have hnull : ¬ (some c == some '\x00') = true := by
    rintro h
    obtain rfl := Option.some.inj (beq_iff_eq.mp h)
    exact absurd hc (by decide)
  change ((peek >>= fun c => if c == some '\x00' then fail .nullChar else pure ()) >>= f) s = _
  rw [bind_assoc, bind_peek_apply, hr, List.head?_cons, if_neg hnull]
  rfl

/-- The next character of a comment that is looked at closely. -/
theorem commentEnd_cons {fuel : Nat} {before r : List Char} {a b c : Char} (hr : s.rest = c :: r)
    (hc : isXmlChar c = true) : commentEnd (fuel + 1) before a b s =
      if a == '-' && b == '-' then
        if c == '>' then .ok (before.reverse, s.advance 1) else fail .hyphensAfterText s
      else commentEnd fuel (a :: before) b c (s.advance 1) := by
  rw [commentEnd, noNull_apply hr hc, bind_peek_apply, hr]
  simp only [List.head?_cons, hc, Bool.not_true, Bool.false_eq_true, if_false]
  split
  · split <;> rfl
  · rfl

theorem head_of_commentEnd {fuel : Nat} {before content : List Char} {a b : Char}
    (h : commentEnd (fuel + 1) before a b s = .ok (content, t)) : ∃ c r, s.rest = c :: r ∧ isXmlChar c = true := by
  rw [commentEnd] at h
  have h := of_bind_noNull h
  rw [bind_peek_apply] at h
  generalize hhead : s.rest.head? = head at h
  cases head with
  | none => exact absurd h fail_eq_ok
  | some c =>
      obtain ⟨-, h⟩ | ⟨hc, -⟩ := of_ite h
      · exact absurd h fail_eq_ok
      · exact ⟨c, _, cons_of_head? hhead, by simpa using hc⟩

theorem repeats_commentEnd {fuel : Nat} {before content : List Char} {a b : Char}
    (h : commentEnd fuel before a b s = .ok (content, t)) : Repeats Whatever (fun k => commentEnd k before a b) s content t := by
  induction fuel generalizing s before a b with
  | zero => exact absurd h fail_eq_ok
  | succ fuel ih =>
      obtain ⟨c, r, hr, hc⟩ := head_of_commentEnd h
      rw [commentEnd_cons hr hc] at h
      split at h
      next hhyphens =>
        split at h
        next hclose =>
          cases h
          refine Repeats.last (q := [c]) (rest_eq_cons_advance hr) fun k s' r' _ _ hs' => ?_
          rw [commentEnd_cons hs' hc, if_pos hhyphens, if_pos hclose]
          rfl
        next => exact absurd h fail_eq_ok
      next hhyphens =>
        refine Repeats.next (rest_eq_cons_advance hr) (fun k s' q r' _ _ hs' => ?_) (ih h)
        rw [commentEnd_cons hs' hc, if_neg hhyphens]

theorem Steady.commentChar : Steady Next commentChar := by
  unfold Reading.commentChar
  refine noNull.bind fun _ => peek.bind fun head => ?_
  cases head with
  | none => exact .fail _
  | some c => exact ((skip 1).bind fun _ => .pure c).ite (.fail _)

theorem Steady.commentClosely (before : List Char) : Steady Next (commentClosely before) := by
  unfold Reading.commentClosely
  refine commentChar.bind fun a => commentChar.bind fun b => noNull.bind fun _ => peek.bind fun head => ?_
  have hend : Steady Next (Reading.remaining >>= fun r => Reading.commentEnd r.length.succ before a b) :=
    Steady.fuel (x := fun k => Reading.commentEnd k before a b) fun s content t _ h => (repeats_commentEnd h).mono fun _ _ => trivial
  exact ((Steady.fail _).bind fun _ => hend).ite hend

/-- The next character of a comment that does not end there. -/
theorem commentFrom_cons {fuel : Nat} {before r : List Char} {c : Char} (hr : s.rest = c :: r)
    (hmark : c = '-' → r.head? ≠ some '-') : commentFrom (fuel + 1) before s =
      if isEasy c then commentFrom fuel (c :: before) (s.advance 1) else commentClosely before s := by
  rw [commentFrom, bind_remaining_apply]
  generalize hrest : s.rest = rest
  rw [hrest] at hr
  split
  next =>
    obtain ⟨rfl, rfl⟩ := List.cons.inj hr
    exact absurd rfl (hmark rfl)
  next =>
    obtain ⟨rfl, rfl⟩ := List.cons.inj hr
    exact absurd rfl (hmark rfl)
  next =>
    obtain ⟨rfl, rfl⟩ := List.cons.inj hr
    split
    · rw [bind_skip_apply]
    · rfl
  next => cases hr

theorem commentFrom_mark {fuel : Nat} {before r : List Char} (hr : s.rest = '-' :: '-' :: '>' :: r) :
    commentFrom (fuel + 1) before s = .ok (before.reverse, s.advance 3) := by
  rw [commentFrom, bind_remaining_apply, hr]
  rfl

/-- A comment ends, or goes on with a character that does not begin its end. -/
theorem commentFrom_cases {fuel : Nat} {before content : List Char} (h : commentFrom (fuel + 1) before s = .ok (content, t)) :
    (∃ r, s.rest = '-' :: '-' :: '>' :: r) ∨ ∃ c r, s.rest = c :: r ∧ (c = '-' → r.head? ≠ some '-') := by
  rw [commentFrom, bind_remaining_apply] at h
  generalize hrest : s.rest = rest at h
  split at h
  next r => exact .inl ⟨r, rfl⟩
  next => split at h <;> exact absurd h fail_eq_ok
  next c r _ hopen =>
    refine .inr ⟨c, r, rfl, ?_⟩
    rintro rfl hhead
    exact hopen _ rfl (cons_of_head? hhead)
  next =>
    -- nothing is left to look at closely
    obtain ⟨found, hcut⟩ := commentClosely_eq_ok h
    rw [hrest] at hcut
    cases hcut

theorem repeats_commentFrom (hs : Undeclared s.docType) {fuel : Nat} {before content : List Char}
    (hfuel : s.rest.length < fuel) (h : commentFrom fuel before s = .ok (content, t)) :
    Repeats Next (fun k => commentFrom k before) s content t := by
  induction fuel generalizing s before with
  | zero => omega
  | succ fuel ih =>
      obtain ⟨r, hr⟩ | ⟨c, r, hr, hmark⟩ := commentFrom_cases h
      · rw [commentFrom_mark hr] at h
        cases h
        refine Repeats.last (q := ['-', '-', '>']) ?_ fun k s' r' _ _ hs' => commentFrom_mark hs'
        rw [State.rest_advance, hr]
        rfl
      · have hagain {k : Nat} {s' : State} {q r' : List Char} (hq : r = q ++ t.rest) (hr' : Next t.rest r')
            (hs' : s'.rest = c :: (q ++ r')) : commentFrom (k + 1) before s' =
              if isEasy c then commentFrom k (c :: before) (s'.advance 1) else commentClosely before s' :=
          commentFrom_cons hs' fun hc => by
            rw [(hr'.append q).head?_eq, ← hq]
            exact hmark hc
        rw [commentFrom_cons hr hmark] at h
        split at h
        next heasy =>
          have hrest : (s.advance 1).rest = r := by rw [State.rest_advance, hr]; rfl
          rw [hr, List.length_cons, ← hrest] at hfuel
          refine Repeats.next (rest_eq_cons_advance hr) (fun k s' q r' hq hr' hs' => ?_)
            (ih (by simpa using hs) (by omega) h)
          rw [hagain (hrest ▸ hq) hr' hs', if_pos heasy]
        next heasy =>
          have hne : c ≠ '-' := fun hc => heasy (hc ▸ by decide)
          obtain ⟨q, hq, hclosely⟩ := Steady.commentClosely before s content t hs h
          refine ⟨q, hq, fun k s' r' hk hs' hr' hlike => ?_⟩
          obtain ⟨k, rfl⟩ : ∃ j, k = j + 1 := ⟨k - 1, by omega⟩
          have hhead : s'.rest.head? = some c := by rw [hs', (hr'.append q).head?_eq, ← hq, hr, List.head?_cons]
          dsimp only
          rw [commentFrom_cons (cons_of_head? hhead) fun hc => absurd hc hne, if_neg heasy]
          exact hclosely (k + 1) s' r' hk hs' hr' hlike

theorem Steady.comment : Steady Next comment :=
  (skip 4).bind fun _ => fuel_bind (x := fun k => Reading.commentFrom k [])
    (fun _ _ _ hs h => repeats_commentFrom hs (Nat.lt_succ_self _) h) fun _ => .pure _

end Comments

section Instructions

theorem Steady.target : Steady Next target := by
  unfold Reading.target
  refine name.bind fun n => ?_
  have hlast : Steady Next (if n.contains ':' then Reading.note (.targetWithColon (String.ofList n)) >>= fun _ => Pure.pure n
      else Pure.pure n) := ((note _).bind fun _ => .pure n).ite (.pure n)
  exact (((Steady.fail _).bind fun _ => hlast).ite (((Steady.fail _).bind fun _ => hlast).ite
    (((note _).bind fun _ => hlast).ite hlast))).ite hlast

theorem instructionEnd_cons {n r : List Char} {fuel : Nat} {c : Char} (hr : s.rest = c :: r) (hc : isXmlChar c = true)
    (hmark : c = '?' → r.head? ≠ some '>') : instructionEnd n (fuel + 1) s =
      (instructionEnd n fuel >>= fun more => pure (c :: more)) (s.advance 1) := by
  rw [instructionEnd, noNull_apply hr hc, bind_remaining_apply]
  generalize hrest : s.rest = rest
  rw [hrest] at hr
  split
  next =>
    obtain ⟨rfl, rfl⟩ := List.cons.inj hr
    exact absurd rfl (hmark rfl)
  next =>
    obtain ⟨rfl, rfl⟩ := List.cons.inj hr
    rw [if_pos hc, bind_skip_apply]
  next => cases hr

theorem instructionEnd_mark {n r : List Char} {fuel : Nat} (hr : s.rest = '?' :: '>' :: r) :
    instructionEnd n (fuel + 1) s = .ok ([], s.advance 2) := by
  rw [instructionEnd, noNull_apply hr (by decide), bind_remaining_apply, hr]
  rfl

theorem instructionEnd_cases {n content : List Char} {fuel : Nat} (h : instructionEnd n (fuel + 1) s = .ok (content, t)) :
    (∃ r, s.rest = '?' :: '>' :: r) ∨
      ∃ c r, s.rest = c :: r ∧ isXmlChar c = true ∧ (c = '?' → r.head? ≠ some '>') := by
  rw [instructionEnd] at h
  have h := of_bind_noNull h
  rw [bind_remaining_apply] at h
  generalize s.rest = rest at h
  split at h
  next r => exact .inl ⟨r, rfl⟩
  next c r hclose =>
    obtain ⟨hc, -⟩ | ⟨-, h⟩ := of_ite h
    · refine .inr ⟨c, r, rfl, hc, ?_⟩
      rintro rfl hhead
      exact hclose _ rfl (cons_of_head? hhead)
    · exact absurd h fail_eq_ok
  next => exact absurd h fail_eq_ok

theorem repeats_instructionEnd {n content : List Char} {fuel : Nat} (h : instructionEnd n fuel s = .ok (content, t)) :
    Repeats Next (instructionEnd n) s content t := by
  induction fuel generalizing s content with
  | zero => exact absurd h fail_eq_ok
  | succ fuel ih =>
      obtain ⟨r, hr⟩ | ⟨c, r, hr, hc, hmark⟩ := instructionEnd_cases h
      · rw [instructionEnd_mark hr] at h
        cases h
        refine Repeats.last (q := ['?', '>']) ?_ fun k s' r' _ _ hs' => instructionEnd_mark hs'
        rw [State.rest_advance, hr]
        rfl
      · rw [instructionEnd_cons hr hc hmark] at h
        obtain ⟨more, m, hmore, h⟩ := bind_eq_ok.mp h
        obtain ⟨rfl, rfl⟩ := pure_eq_ok.mp h
        have hrest : (s.advance 1).rest = r := by rw [State.rest_advance, hr]; rfl
        have hagain : Repeats Next (fun k => instructionEnd n k >>= fun more => pure (c :: more)) (s.advance 1) (c :: more) m :=
          (ih hmore).bind ⟨[], rfl, fun _ s' r' _ hs' _ hlike => ⟨s', rfl, hs', hlike⟩⟩ extends_self
        refine hagain.next (rest_eq_cons_advance hr) fun k s' q r' hq hr' hs' => instructionEnd_cons hs' hc fun hc => ?_
        rw [(hr'.append q).head?_eq, ← hq, hrest]
        exact hmark hc

/-- A mark that is passed, or something that begins with another character. -/
theorem Steady.accept_or {α : Type} {c : Char} {mark : List Char} {x y : Reading α} (hx : Steady Next x) (hy : Steady Next y)
    (hhead : ∀ s a t, y s = .ok (a, t) → s.rest.head? ≠ some c) :
    Steady Next (Reading.accept (c :: mark) >>= fun found => if found then x else y) := fun s a t hs h => by
  obtain ⟨b, m, haccept, hmore⟩ := bind_eq_ok.mp h
  clear h
  cases b with
  | true =>
      obtain ⟨-, rfl⟩ := accept_eq_ok.mp haccept
      have hpassed : Repeats Next (fun _ => Reading.accept (c :: mark)) s true (s.advance (c :: mark).length) := by
        refine ⟨c :: mark, accept_true haccept, fun _ s' r' _ hs' _ hlike => ⟨_, ?_, ?_, hlike.advance _ (c :: mark).length⟩⟩
        · exact accept_eq_ok.mpr ⟨List.isPrefixOf_iff_prefix.mpr ⟨r', hs'.symm⟩, rfl⟩
        · rw [State.rest_advance, hs', List.drop_left]
      exact hpassed.bind (hx _ a t (hpassed.undeclared hs) hmore) extends_self
  | false =>
      obtain ⟨-, rfl⟩ := accept_false haccept
      have hne := hhead m a t hmore
      obtain ⟨q, hq, hagain⟩ := hy m a t hs hmore
      refine ⟨q, hq, fun k s' r' hk hs' hr' hlike => ?_⟩
      obtain ⟨t', ht', hrest, hlike'⟩ := hagain k s' r' hk hs' hr' hlike
      have hne' : s'.rest.head? ≠ some c := by rwa [hs', (hr'.append q).head?_eq, ← hq]
      refine ⟨t', bind_eq_ok.mpr ⟨false, s', accept_eq_ok.mpr ⟨?_, rfl⟩, ht'⟩, hrest, hlike'⟩
      rw [Bool.eq_false_iff]
      intro hstarts
      obtain ⟨r, hr⟩ := List.isPrefixOf_iff_prefix.mp hstarts
      exact hne' (by rw [← hr]; rfl)

theorem head?_of_someSpace {cause : Cause} {u : Unit} (h : someSpace cause s = .ok (u, t)) :
    ∃ c, s.rest.head? = some c ∧ isSpace c = true := by
  obtain ⟨hne, -⟩ := someSpace_eq_ok h
  obtain ⟨c, run, hrun⟩ := List.exists_cons_of_ne_nil hne
  cases hrest : s.rest with
  | nil => exact absurd (by rw [hrest]; rfl) hne
  | cons d r =>
      have hd : isSpace d = true := by
        by_contra hd
        rw [hrest, List.takeWhile_cons_of_neg hd] at hne
        exact hne rfl
      exact ⟨d, rfl, hd⟩

theorem Steady.instruction : Steady Next instruction := by
  unfold Reading.instruction
  refine (skip 2).bind fun _ => target.bind fun n => ?_
  have hend : Steady Next (Reading.remaining >>= fun r => Reading.instructionEnd n r.length.succ >>= fun content =>
      Pure.pure (Piece.text .instruction (n ++ ' ' :: content))) :=
    fuel_bind (fun _ _ _ _ h => repeats_instructionEnd h) fun _ => .pure _
  have hrest : Steady Next (Reading.accept ['?', '>'] >>= fun found =>
      if found then Pure.pure (Piece.text .instruction n)
      else Reading.someSpace (.instructionSpace (String.ofList n)) >>= fun _ => Reading.remaining >>= fun r =>
        Reading.instructionEnd n r.length.succ >>= fun content =>
          Pure.pure (Piece.text .instruction (n ++ ' ' :: content))) :=
    accept_or (Steady.pure _) ((someSpace _).bind fun _ => hend) fun s a t h => by
      obtain ⟨u, m, hspace, -⟩ := bind_eq_ok.mp h
      obtain ⟨c, hc, hblank⟩ := head?_of_someSpace hspace
      rintro hmark
      obtain rfl := Option.some.inj (hc.symm.trans hmark)
      exact absurd hblank (by decide)
  exact ((Steady.fail _).bind fun _ => hrest).ite hrest

end Instructions

section Sections

theorem Steady.sectionChar : Steady Next sectionChar := by
  unfold Reading.sectionChar
  refine noNull.bind fun _ => peek.bind fun head => ?_
  cases head with
  | none => exact .fail _
  | some c => exact ((skip 1).bind fun _ => .pure c).ite (.fail _)

theorem sectionEnd_cons {fuel : Nat} {before r : List Char} {a b c : Char} (hr : s.rest = c :: r)
    (hc : isXmlChar c = true) : sectionEnd (fuel + 1) before a b s =
      if a == ']' && b == ']' && c == '>' then .ok (before.reverse, s.advance 1)
      else sectionEnd fuel (a :: before) b c (s.advance 1) := by
  rw [sectionEnd, noNull_apply hr hc, bind_peek_apply, hr]
  simp only [List.head?_cons, hc, if_true]
  split <;> rfl

theorem head_of_sectionEnd {fuel : Nat} {before content : List Char} {a b : Char}
    (h : sectionEnd (fuel + 1) before a b s = .ok (content, t)) : ∃ c r, s.rest = c :: r ∧ isXmlChar c = true := by
  rw [sectionEnd] at h
  have h := of_bind_noNull h
  rw [bind_peek_apply] at h
  generalize hhead : s.rest.head? = head at h
  cases head with
  | none => exact absurd h fail_eq_ok
  | some c =>
      refine ⟨c, _, cons_of_head? hhead, ?_⟩
      obtain ⟨hmark, -⟩ | ⟨-, h⟩ := of_ite h
      · obtain rfl := beq_iff_eq.mp (Bool.and_eq_true_iff.mp hmark).2
        decide
      obtain ⟨hc, -⟩ | ⟨-, h⟩ := of_ite h
      · exact hc
      · exact absurd h fail_eq_ok

theorem repeats_sectionEnd {fuel : Nat} {before content : List Char} {a b : Char}
    (h : sectionEnd fuel before a b s = .ok (content, t)) : Repeats Next (fun k => sectionEnd k before a b) s content t := by
  induction fuel generalizing s before a b with
  | zero => exact absurd h fail_eq_ok
  | succ fuel ih =>
      obtain ⟨c, r, hr, hc⟩ := head_of_sectionEnd h
      rw [sectionEnd_cons hr hc] at h
      split at h
      next hclose =>
        cases h
        refine Repeats.last (q := [c]) (rest_eq_cons_advance hr) fun k s' r' _ _ hs' => ?_
        rw [sectionEnd_cons hs' hc, if_pos hclose]
        rfl
      next hclose =>
        refine (ih h).next (rest_eq_cons_advance hr) fun k s' q r' _ _ hs' => ?_
        rw [sectionEnd_cons hs' hc, if_neg hclose]

theorem Steady.characterSection : Steady Next characterSection :=
  (skip 9).bind fun _ => sectionChar.bind fun a => sectionChar.bind fun b =>
    fuel_bind (x := fun k => Reading.sectionEnd k [] a b) (fun _ _ _ _ h => repeats_sectionEnd h) fun _ => .pure _

end Sections

section Data

theorem characterData_stop {fuel : Nat} (hr : ∀ c, s.rest.head? = some c → c = '<' ∨ c = '&') :
    characterData fuel s = .ok ([], s) := by
  cases fuel with
  | zero => rfl
  | succ fuel =>
      rw [characterData, bind_remaining_apply]
      generalize s.rest = rest at hr
      cases rest with
      | nil => rfl
      | cons c r =>
          obtain rfl | rfl := hr c rfl
          · rfl
          · rfl

theorem characterData_cons {fuel : Nat} {c : Char} {r : List Char} (hr : s.rest = c :: r) (hopen : c ≠ '<') (hamp : c ≠ '&')
    (hmark : c = ']' → ¬ [']', '>'] <+: r) (hc : isXmlChar c = true) : characterData (fuel + 1) s =
      (characterData fuel >>= fun more => pure (c :: more)) (s.advance 1) := by
  rw [characterData, bind_remaining_apply]
  generalize hrest : s.rest = rest
  rw [hrest] at hr
  split
  next => cases hr
  next => exact absurd (List.cons.inj hr).1.symm hopen
  next => exact absurd (List.cons.inj hr).1.symm hamp
  next tail =>
    obtain ⟨rfl, rfl⟩ := List.cons.inj hr
    exact absurd ⟨tail, rfl⟩ (hmark rfl)
  next =>
    obtain ⟨rfl, rfl⟩ := List.cons.inj hr
    rw [if_neg (by rintro hnull; obtain rfl := beq_iff_eq.mp hnull; exact absurd hc (by decide)), if_pos hc, bind_skip_apply]

theorem characterData_cases {fuel : Nat} {content : List Char} (h : characterData (fuel + 1) s = .ok (content, t)) :
    (∀ c, s.rest.head? = some c → c = '<' ∨ c = '&') ∨
      ∃ c r, s.rest = c :: r ∧ c ≠ '<' ∧ c ≠ '&' ∧ (c = ']' → ¬ [']', '>'] <+: r) ∧ isXmlChar c = true := by
  rw [characterData, bind_remaining_apply] at h
  generalize s.rest = rest at h
  split at h
  next => exact .inl fun c hc => by cases hc
  next => exact .inl fun c hc => .inl (Option.some.inj hc).symm
  next => exact .inl fun c hc => .inr (Option.some.inj hc).symm
  next => exact absurd h fail_eq_ok
  next c r hopen hamp hmark =>
    refine .inr ⟨c, r, rfl, fun heq => hopen heq, fun heq => hamp heq, ?_, ?_⟩
    · rintro rfl ⟨tail, rfl⟩
      exact hmark tail rfl rfl
    · obtain ⟨-, h⟩ | ⟨-, h⟩ := of_ite h
      · exact absurd h fail_eq_ok
      obtain ⟨hc, -⟩ | ⟨-, h⟩ := of_ite h
      · exact hc
      · exact absurd h fail_eq_ok

theorem Share.of_head {p : Char → Prop} {r r' : List Char} (h : Next r r') (hr : ∀ c, r.head? = some c → p c) :
    Share p r r' := by
  obtain rfl | ⟨u, c, w, w', -, rfl, rfl⟩ := h
  · exact .inl rfl
  · cases u with
    | nil => exact .inr ⟨[], c, w, w', hr c rfl, rfl, rfl⟩
    | cons d u => exact .inr ⟨[], d, u ++ c :: w, u ++ c :: w', hr d rfl, rfl, rfl⟩

theorem repeats_characterData {fuel : Nat} {content : List Char} (hfuel : s.rest.length < fuel)
    (h : characterData fuel s = .ok (content, t)) : Repeats Next characterData s content t := by
  have hstops : ∀ c, t.rest.head? = some c → c = '<' ∨ c = '&' := fun c hc => by
    have hend := (characterData_eq_ok hfuel h).ends c hc
    simp only [isDataChar, Bool.and_eq_false_iff, bne_eq_false_iff_eq] at hend
    exact hend
  induction fuel generalizing s content with
  | zero => omega
  | succ fuel ih =>
      obtain hstop | ⟨c, r, hr, hopen, hamp, hmark, hc⟩ := characterData_cases h
      · rw [characterData_stop hstop] at h
        cases h
        refine ⟨[], rfl, fun k s' r' _ hs' hr' hlike => ⟨s', characterData_stop ?_, hs', hlike⟩⟩
        rw [hs', List.nil_append, hr'.head?_eq]
        exact hstop
      · rw [characterData_cons hr hopen hamp hmark hc] at h
        obtain ⟨more, m, hmore, h⟩ := bind_eq_ok.mp h
        obtain ⟨rfl, rfl⟩ := pure_eq_ok.mp h
        have hrest : (s.advance 1).rest = r := by rw [State.rest_advance, hr]; rfl
        rw [hr, List.length_cons, ← hrest] at hfuel
        have hagain : Repeats Next (fun k => characterData k >>= fun more => pure (c :: more)) (s.advance 1) (c :: more) m :=
          (ih (by omega) hmore).bind ⟨[], rfl, fun _ s' r' _ hs' _ hlike => ⟨s', rfl, hs', hlike⟩⟩ extends_self
        refine hagain.next (rest_eq_cons_advance hr) fun k s' q r' hq hr' hs' =>
          characterData_cons hs' hopen hamp (fun hc hstarts => hmark hc ?_) hc
        -- what follows the text has no part in the mark
        have hshare := (Share.of_head hr' hstops).append q
        rw [← hrest, hq, ← List.isPrefixOf_iff_prefix, ← hshare.isPrefixOf_eq (by simp)]
        exact List.isPrefixOf_iff_prefix.mpr hstarts

end Data

section Declaration

/-- Up to the end of the declaration at least. -/
abbrev ToBracket : List Char → List Char → Prop := Share (· = '>')

theorem Steady.equalAndQuote : Steady ToBracket equalAndQuote := by
  unfold Reading.equalAndQuote
  refine spaces.bind fun _ => (expect _ _).bind fun _ => spaces.bind fun _ => peek.bind fun head => ?_
  cases head with
  | none => exact .fail _
  | some c => exact ((skip 1).bind fun _ => .pure c).ite (.fail _)

/-- A number of a version begins with a digit and a point. -/
theorem versionNumber_cases {n : List Char} (h : versionNumber s = .ok (n, t)) (hne : n ≠ []) :
    ∃ a r digits, s.rest = a :: '.' :: r ∧ Text.isDigit a = true ∧ n = a :: '.' :: digits ∧
      takeWhile Text.isDigit (s.advance 2) = .ok (digits, t) := by
  unfold versionNumber at h
  rw [bind_remaining_apply] at h
  generalize s.rest = rest at h
  split at h
  next a r =>
    obtain ⟨ha, h⟩ | ⟨-, h⟩ := of_ite h
    · rw [bind_skip_apply] at h
      obtain ⟨digits, m, hdigits, h⟩ := bind_eq_ok.mp h
      obtain ⟨rfl, rfl⟩ := pure_eq_ok.mp h
      exact ⟨a, r, digits, rfl, ha, rfl, hdigits⟩
    · exact absurd (pure_eq_ok.mp h).1.symm hne
  next a r _ =>
    dsimp only at h
    split at h
    · rw [bind_skip_apply] at h
      exact absurd (pure_eq_ok.mp h).1.symm hne
    · exact absurd (pure_eq_ok.mp h).1.symm hne
  next => exact absurd (pure_eq_ok.mp h).1.symm hne

theorem repeats_versionNumber (hs : Undeclared s.docType) {n : List Char} (h : versionNumber s = .ok (n, t)) (hne : n ≠ []) :
    Repeats ToBracket (fun _ => versionNumber) s n t := by
  obtain ⟨a, r, digits, hr, ha, rfl, hdigits⟩ := versionNumber_cases h hne
  obtain ⟨q, hq, hagain⟩ := Steady.takeWhile _ (s.advance 2) digits t (by simpa using hs) hdigits
  refine ⟨a :: '.' :: q, ?_, fun k s' r' hk hs' hr' hlike => ?_⟩
  · rw [hr, List.cons_append, List.cons_append, ← hq, State.rest_advance, hr]
    rfl
  · obtain ⟨t', ht', hrest, hlike'⟩ := hagain (q.length + 1) (s'.advance 2) r' (Nat.lt_succ_self _)
      (by rw [State.rest_advance, hs']; rfl) hr' (hlike.advance 2 2)
    refine ⟨t', ?_, hrest, hlike'⟩
    unfold versionNumber
    dsimp only
    rw [bind_remaining_apply, hs']
    change (if Text.isDigit a then do
        skip 2
        return a :: '.' :: (← takeWhile Text.isDigit)
      else return [] : Reading (List Char)) s' = _
    rw [if_pos ha, bind_skip_apply]
    exact bind_eq_ok.mpr ⟨digits, t', ht', rfl⟩

theorem Steady.version : Steady ToBracket version := by
  unfold Reading.version
  have hend (quote : Char) : Steady ToBracket (do
      let number ← Reading.versionNumber
      Reading.expect [quote] .stringNotClosed
      if number.isEmpty then Reading.fail .versionMissing
      else if number != "1.0".toList then
        if number.take 2 == ['1', '.'] then Reading.note (.unsupportedVersion (String.ofList number))
        else Reading.fail (.unsupportedVersion (String.ofList number)) : Reading Unit) := by
    intro s u t hs h
    obtain ⟨number, m, hnumber, h⟩ := bind_eq_ok.mp h
    have hne : number ≠ [] := by
      rintro rfl
      obtain ⟨u, m', -, h⟩ := bind_eq_ok.mp h
      exact absurd h fail_eq_ok
    have hnumber := repeats_versionNumber hs hnumber hne
    have hmore : Steady ToBracket (do
        Reading.expect [quote] .stringNotClosed
        if number.isEmpty then Reading.fail .versionMissing
        else if number != "1.0".toList then
          if number.take 2 == ['1', '.'] then Reading.note (.unsupportedVersion (String.ofList number))
          else Reading.fail (.unsupportedVersion (String.ofList number)) : Reading Unit) :=
      (expect _ _).bind fun _ => (Steady.fail _).ite (((note _).ite (.fail _)).ite (.pure _))
    exact hnumber.bind (hmore m u t (hnumber.undeclared hs) h) extends_self
  refine spaces.bind fun _ => (accept (by simp)).bind fun found => ?_
  dsimp only
  split
  · exact equalAndQuote.bind hend
  · exact (Steady.fail _).bind fun _ => equalAndQuote.bind hend

theorem Steady.encoding : Steady ToBracket encoding := by
  unfold Reading.encoding
  refine spaces.bind fun _ => (accept (by simp)).bind fun found => ?_
  split
  · refine equalAndQuote.bind fun quote => peek.bind fun first => ?_
    have hname : Steady ToBracket (do
        let _ ← Reading.takeWhile isEncodingChar
        Reading.expect [quote] .stringNotClosed
        return true : Reading Bool) := (takeWhile _).bind fun _ => (expect _ _).bind fun _ => .pure _
    dsimp only
    split
    · split
      · exact hname
      · exact (Steady.fail _).bind fun _ => hname
    · exact (Steady.fail _).bind fun _ => hname
  · exact .pure _

theorem Steady.declareStandalone : Steady A (declare fun d => { d with standalone := true }) := fun s u t _ h => by
  cases h
  refine ⟨[], rfl, fun _ s' r' _ hs' _ hlike => ⟨_, rfl, hs', ?_⟩⟩
  obtain ⟨⟨b, hb⟩, hdocType, hids, htone⟩ := hlike
  exact ⟨⟨true, by rw [hb]⟩, by rw [hdocType], hids, htone⟩

theorem Steady.standalone : Steady ToBracket standalone := by
  unfold Reading.standalone
  refine spaces.bind fun _ => (accept (by simp)).bind fun found => ?_
  split
  · refine equalAndQuote.bind fun quote => ?_
    have hclose : Steady ToBracket (Reading.expect [quote] .stringNotClosed) := expect _ _
    refine (accept (by simp)).bind fun yes => ?_
    dsimp only
    split
    · exact declareStandalone.bind fun _ => hclose
    · refine (accept (by simp)).bind fun no => ?_
      split
      · exact hclose
      · exact (Steady.fail _).bind fun _ => hclose
  · exact .pure _

theorem Steady.endOrSpace : Steady ToBracket endOrSpace := by
  intro s b t hs h
  unfold Reading.endOrSpace at h ⊢
  rw [bind_remaining_apply] at h
  generalize hrest : s.rest = rest at h
  split at h
  next r =>
    obtain ⟨rfl, rfl⟩ := pure_eq_ok.mp h
    refine ⟨[], rfl, fun _ s' r' _ hs' hr' hlike => ⟨s', ?_, hs', hlike⟩⟩
    have hmark : ∃ r'', s'.rest = '?' :: '>' :: r'' := by
      rw [hs', List.nil_append]
      rw [hrest] at hr'
      obtain rfl | ⟨u, c, w, w', rfl, hu, rfl⟩ := hr'
      · exact ⟨r, rfl⟩
      · cases u with
        | nil => exact absurd (List.cons.inj hu).1 (by decide)
        | cons d u =>
            obtain ⟨rfl, htail⟩ := List.cons.inj hu
            cases u with
            | nil => exact ⟨w', rfl⟩
            | cons e u =>
                obtain ⟨rfl, -⟩ := List.cons.inj htail
                exact ⟨u ++ '>' :: w', rfl⟩
    obtain ⟨r'', hr''⟩ := hmark
    dsimp only
    rw [bind_remaining_apply, hr'']
    rfl
  next c r hmark =>
    obtain ⟨hc, h⟩ | ⟨-, h⟩ := of_ite h
    · obtain ⟨rfl, rfl⟩ := pure_eq_ok.mp h
      refine ⟨[], rfl, fun _ s' r' _ hs' hr' hlike => ⟨s', ?_, hs', hlike⟩⟩
      have hhead : s'.rest.head? = some c := by rw [hs', List.nil_append, hr'.head?_eq, hrest]; rfl
      dsimp only
      rw [bind_remaining_apply]
      generalize s'.rest = rest' at hhead
      split
      next =>
        obtain rfl := Option.some.inj hhead
        exact absurd hc (by decide)
      next =>
        obtain rfl := Option.some.inj hhead
        rw [if_pos hc]
        rfl
      next => cases hhead
    · exact absurd h fail_eq_ok
  next => exact absurd h fail_eq_ok

/-- A reading that is done again and passes a closing bracket. -/
def Closes (x : Reading Unit) : Prop := ∀ s u t, Undeclared s.docType → x s = .ok (u, t) →
  Repeats Next (fun _ => x) s u t ∧ ∃ q, s.rest = q ++ t.rest ∧ '>' ∈ q

theorem Closes.bind {α : Type} {x : Reading α} {f : α → Reading Unit} (hx : Steady ToBracket x)
    (hf : ∀ a, Closes (f a)) : Closes (x >>= f) := fun s u t hs h => by
  obtain ⟨a, m, hfirst, hrest⟩ := bind_eq_ok.mp h
  have hfirst := hx s a m hs hfirst
  obtain ⟨hmore, q, hq, hmem⟩ := hf a m u t (hfirst.undeclared hs) hrest
  refine ⟨hfirst.bind hmore (extends_of_mem hq rfl hmem), ?_⟩
  obtain ⟨q', hq', -⟩ := hfirst
  exact ⟨q' ++ q, by rw [hq', hq, List.append_assoc], List.mem_append_right _ hmem⟩

theorem Steady.declaration : Steady Next declaration := by
  have hclose : Closes (Reading.expect ['?', '>'] .declarationNotFinished) := fun s u t hs h =>
    ⟨expect _ _ s u t hs h, ['?', '>'], expect_eq_ok h, by decide⟩
  have hlast (atEnd : Bool) : Closes (if atEnd then Reading.expect ['?', '>'] .declarationNotFinished else do
      Reading.standalone
      let _ ← Reading.spaces
      Reading.expect ['?', '>'] .declarationNotFinished) := by
    split
    · exact hclose
    · exact .bind standalone fun _ => .bind spaces fun _ => hclose
  suffices hcloses : Closes Reading.declaration from fun s u t hs h => (hcloses s u t hs h).1
  unfold Reading.declaration
  refine .bind (skip 5) fun _ => .bind version fun _ => .bind endOrSpace fun atEnd => ?_
  dsimp only
  split
  · exact hclose
  · refine .bind encoding fun encoded => ?_
    split
    · exact .bind endOrSpace hlast
    · exact .bind (.pure false) hlast

end Declaration

end MarkupIds.Xml.Reading
