import MarkupIds.Proofs.Xml.Again
import MarkupIds.Proofs.Xml.Elements

/-! References and values are read once more as they were read. -/

namespace MarkupIds.Xml.Reading

variable {s t : State} {A : List Char → List Char → Prop}

section References

theorem Steady.characterOf [IsAhead A] (inString : Bool) (code : Nat) : Steady A (characterOf inString code) := by
  unfold Reading.characterOf
  have hrest : Steady A (if (Char.ofNat code).toNat == code && isXmlChar (Char.ofNat code) then
      Pure.pure (Char.ofNat code) else Reading.fail (.codeInvalid inString code)) := (Steady.pure _).ite (.fail _)
  exact ((Steady.fail _).bind fun _ => hrest).ite hrest

theorem Calm.characterOf (inString : Bool) (code : Nat) : Calm (characterOf inString code) := by
  unfold Reading.characterOf
  have hrest : Calm (if (Char.ofNat code).toNat == code && isXmlChar (Char.ofNat code) then
      Pure.pure (Char.ofNat code) else Reading.fail (.codeInvalid inString code)) := (Calm.pure _).ite (.fail _)
  exact ((Calm.fail _).bind fun _ => hrest).ite hrest

theorem Steady.codeDigits : Steady Next codeDigits := by
  unfold Reading.codeDigits
  refine (accept_single 'x').bind fun isHex => (takeWhile _).bind fun digits => peek.bind fun next => ?_
  split
  · exact .pure _
  · exact .fail _

theorem Calm.codeDigits : Calm codeDigits := by
  unfold Reading.codeDigits
  refine (accept ['x']).bind fun isHex => (takeWhile _).bind fun digits => peek.bind fun next => ?_
  split
  · exact .pure _
  · exact .fail _

theorem Steady.characterReference : Steady Next characterReference :=
  (skip 2).bind fun _ => codeDigits.bind fun code => (skip 1).bind fun _ => characterOf false code

theorem Calm.characterReference : Calm characterReference :=
  (skip 2).bind fun _ => codeDigits.bind fun code => (skip 1).bind fun _ => characterOf false code

theorem Steady.entityReference : Steady Next entityReference := by
  unfold Reading.entityReference
  refine (skip 1).bind fun _ => name.bind fun n => ?_
  have hrest : Steady Next (Reading.expect [';'] .referenceNotClosed >>= fun _ => Pure.pure n) :=
    (expect _ _).bind fun _ => .pure n
  exact ((Steady.fail _).bind fun _ => hrest).ite hrest

theorem Calm.entityReference : Calm entityReference := by
  unfold Reading.entityReference
  refine (skip 1).bind fun _ => name.bind fun n => ?_
  have hrest : Calm (Reading.expect [';'] .referenceNotClosed >>= fun _ => Pure.pure n) :=
    (expect _ _).bind fun _ => .pure n
  exact ((Calm.fail _).bind fun _ => hrest).ite hrest

/-- Where nothing is declared no name is found. -/
theorem lookUp_undeclared (hs : Undeclared s.docType) {inValue : Bool} {n : List Char} {e : Option Entity} :
    ¬ lookUp inValue n s = .ok (e, t) := by
  intro h
  obtain ⟨b, hb⟩ := hs
  unfold lookUp at h
  rw [bind_docType_apply, hb] at h
  have hcause : ({ standalone := b } : DocType).undeclared n = .entityUndefined (String.ofList n) := by
    unfold DocType.undeclared DocType.isComplete
    simp
  simp only [DocType.entity?, List.find?_nil, hcause] at h
  cases h

/-- A reference to a character, by its code or by one of the names that need no declaration. -/
def RefersTo (s : State) (c : Char) (t : State) : Prop :=
  (s.rest.drop 1).head? = some '#' ∧ characterReference s = .ok (c, t) ∨
    (s.rest.drop 1).head? ≠ some '#' ∧ ∃ n, entityReference s = .ok (n, t) ∧ plainEntity? n = some c

/-- Such a reference stands for its character, whatever is declared. -/
theorem valueReference_of_refersTo {c : Char} {r : List Char} (hr : s.rest = '&' :: r) (h : RefersTo s c t) :
    valueReference s = .ok ([c], t) := by
  unfold valueReference
  rw [bind_remaining_apply]
  obtain ⟨hhash, hc⟩ | ⟨hhead, n, hn, hplain⟩ := h
  · rw [hr] at hhash ⊢
    rw [cons_of_head? (l := r) hhash]
    exact bind_eq_ok.mpr ⟨c, t, hc, rfl⟩
  · generalize s.rest = rest at hhead
    split
    next => exact absurd rfl hhead
    next =>
      refine bind_eq_ok.mpr ⟨n, t, hn, ?_⟩
      simp only [hplain]
      rfl

theorem valueReference_iff (hs : Undeclared s.docType) {r v : List Char} (hr : s.rest = '&' :: r) :
    valueReference s = .ok (v, t) ↔ ∃ c, RefersTo s c t ∧ v = [c] := by
  refine ⟨fun h => ?_, fun ⟨c, hc, hv⟩ => hv ▸ valueReference_of_refersTo hr hc⟩
  unfold valueReference at h
  unfold RefersTo
  rw [bind_remaining_apply] at h
  generalize s.rest = rest at hr h
  split at h
  next tail =>
    obtain ⟨c, m, hc, h⟩ := bind_eq_ok.mp h
    obtain ⟨rfl, rfl⟩ := pure_eq_ok.mp h
    exact ⟨c, .inl ⟨rfl, hc⟩, rfl⟩
  next hnot =>
    have hhead : (rest.drop 1).head? ≠ some '#' := fun hhead => by
      rw [hr] at hhead
      exact hnot _ (hr.trans (congrArg ('&' :: ·) (cons_of_head? (l := r) hhead)))
    obtain ⟨n, m, hn, h⟩ := bind_eq_ok.mp h
    cases hplain : plainEntity? n with
    | some c =>
        simp only [hplain] at h
        obtain ⟨rfl, rfl⟩ := pure_eq_ok.mp h
        exact ⟨c, .inr ⟨hhead, n, hn, hplain⟩, rfl⟩
    | none =>
        simp only [hplain] at h
        obtain ⟨e, m', he, -⟩ := bind_eq_ok.mp h
        exact absurd he (lookUp_undeclared (Calm.entityReference s n m hs hn).symm.undeclared)

theorem reference_iff {expand : List Char → List Char → Reading Unit} (hs : Undeclared s.docType) {r : List Char}
    {piece : Piece} (hr : s.rest = '&' :: r) :
    reference expand s = .ok (piece, t) ↔ ∃ c, RefersTo s c t ∧ piece = .text .plain [c] := by
  unfold reference RefersTo
  rw [bind_remaining_apply]
  generalize s.rest = rest at hr
  split
  next tail =>
    constructor
    · intro h
      obtain ⟨c, m, hc, h⟩ := bind_eq_ok.mp h
      obtain ⟨rfl, rfl⟩ := pure_eq_ok.mp h
      exact ⟨c, .inl ⟨rfl, hc⟩, rfl⟩
    · rintro ⟨c, ⟨-, hc⟩ | ⟨hne, -⟩, rfl⟩
      · exact bind_eq_ok.mpr ⟨c, t, hc, rfl⟩
      · exact absurd rfl hne
  next hnot =>
    have hhead : (rest.drop 1).head? ≠ some '#' := fun hhead => by
      rw [hr] at hhead
      exact hnot _ (hr.trans (congrArg ('&' :: ·) (cons_of_head? (l := r) hhead)))
    constructor
    · intro h
      obtain ⟨n, m, hn, h⟩ := bind_eq_ok.mp h
      cases hplain : plainEntity? n with
      | some c =>
          simp only [hplain] at h
          obtain ⟨rfl, rfl⟩ := pure_eq_ok.mp h
          exact ⟨c, .inr ⟨hhead, n, hn, hplain⟩, rfl⟩
      | none =>
          simp only [hplain] at h
          obtain ⟨e, m', he, -⟩ := bind_eq_ok.mp h
          exact absurd he (lookUp_undeclared (Calm.entityReference s n m hs hn).symm.undeclared)
    · rintro ⟨c, ⟨hhash, -⟩ | ⟨-, n, hn, hplain⟩, rfl⟩
      · exact absurd hhash hhead
      · refine bind_eq_ok.mpr ⟨n, t, hn, ?_⟩
        simp only [hplain]
        rfl

namespace RefersTo

variable {c : Char} {r : List Char}

theorem like (h : RefersTo s c t) (hs : Undeclared s.docType) : Like s t := by
  obtain ⟨-, hc⟩ | ⟨-, n, hn, -⟩ := h
  · exact Calm.characterReference s c t hs hc
  · exact Calm.entityReference s n t hs hn

/-- A reference is found again where what follows begins with the same character. -/
theorem again (h : RefersTo s c t) (hs : Undeclared s.docType) (hr : s.rest = '&' :: r) :
    ∃ d q, s.rest = d :: q ++ t.rest ∧ ∀ s' r', s'.rest = d :: q ++ r' → Next t.rest r' → Like s s' →
      ∃ t', RefersTo s' c t' ∧ t'.rest = r' ∧ Like t t' := by
  have hsecond {d : Char} {q r' : List Char} {s' : State} (hq : s.rest = d :: q ++ t.rest) (hs' : s'.rest = d :: q ++ r')
      (hr' : Next t.rest r') : (s'.rest.drop 1).head? = (s.rest.drop 1).head? := by
    rw [hs', hq]
    exact (hr'.append q).head?_eq
  have hcons {q : List Char} (hq : s.rest = q ++ t.rest) (hrun : ∃ run, s.rest = run ++ t.rest ∧ run ≠ [] ∧ Quiet run) :
      ∃ d q', q = d :: q' := by
    obtain ⟨run, hrun, hne, -⟩ := hrun
    obtain rfl := List.append_cancel_right (hrun.symm.trans hq)
    exact List.exists_cons_of_ne_nil hne
  obtain ⟨hhash, hc⟩ | ⟨hhash, n, hn, hplain⟩ := h
  · obtain ⟨q, hq, hagain⟩ := Steady.characterReference s c t hs hc
    have hrest : s.rest = '&' :: '#' :: r.drop 1 := by
      rw [hr] at hhash
      exact hr.trans (congrArg ('&' :: ·) (cons_of_head? (l := r) hhash))
    obtain ⟨d, q, rfl⟩ := hcons hq (characterReference_eq_ok hc hrest)
    refine ⟨d, q, hq, fun s' r' hs' hr' hlike => ?_⟩
    obtain ⟨t', ht', hrest', hlike'⟩ := hagain _ s' r' (Nat.lt_succ_self _) hs' hr' hlike
    exact ⟨t', .inl ⟨(hsecond hq hs' hr').trans hhash, ht'⟩, hrest', hlike'⟩
  · obtain ⟨q, hq, hagain⟩ := Steady.entityReference s n t hs hn
    obtain ⟨d, q, rfl⟩ := hcons hq (entityReference_eq_ok hn hr)
    refine ⟨d, q, hq, fun s' r' hs' hr' hlike => ?_⟩
    obtain ⟨t', ht', hrest', hlike'⟩ := hagain _ s' r' (Nat.lt_succ_self _) hs' hr' hlike
    exact ⟨t', .inr ⟨(hsecond hq hs' hr') ▸ hhash, n, ht', hplain⟩, hrest', hlike'⟩

end RefersTo

theorem repeats_valueReference (hs : Undeclared s.docType) {r v : List Char} (hr : s.rest = '&' :: r)
    (h : valueReference s = .ok (v, t)) : Repeats Next (fun _ => valueReference) s v t := by
  obtain ⟨c, hc, rfl⟩ := (valueReference_iff hs hr).mp h
  obtain ⟨d, q, hq, hagain⟩ := hc.again hs hr
  obtain rfl : d = '&' := (List.cons.inj (hq.symm.trans hr)).1
  refine ⟨'&' :: q, hq, fun k s' r' _ hs' hr' hlike => ?_⟩
  obtain ⟨t', ht', hrest, hlike'⟩ := hagain s' r' hs' hr' hlike
  exact ⟨t', (valueReference_iff hlike.symm.undeclared hs').mpr ⟨c, ht', rfl⟩, hrest, hlike'⟩

theorem repeats_reference {expand expand' : List Char → List Char → Reading Unit} (hs : Undeclared s.docType)
    {r : List Char} {piece : Piece} (hr : s.rest = '&' :: r) (h : reference expand s = .ok (piece, t)) :
    ∃ q, s.rest = '&' :: q ++ t.rest ∧ ∀ s' r', s'.rest = '&' :: q ++ r' → Next t.rest r' → Like s s' →
      ∃ t', reference expand' s' = .ok (piece, t') ∧ t'.rest = r' ∧ Like t t' := by
  obtain ⟨c, hc, rfl⟩ := (reference_iff hs hr).mp h
  obtain ⟨d, q, hq, hagain⟩ := hc.again hs hr
  obtain rfl : d = '&' := (List.cons.inj (hq.symm.trans hr)).1
  refine ⟨q, hq, fun s' r' hs' hr' hlike => ?_⟩
  obtain ⟨t', ht', hrest, hlike'⟩ := hagain s' r' hs' hr' hlike
  exact ⟨t', (reference_iff hlike.symm.undeclared hs').mpr ⟨c, ht', rfl⟩, hrest, hlike'⟩

end References

section Values

variable {quote : Char}

theorem valueEnd_quote {fuel : Nat} {r : List Char} (hr : s.rest = quote :: r) :
    valueEnd quote (fuel + 1) s = .ok ([], s.advance 1) := by
  rw [valueEnd, bind_peek_apply, hr]
  dsimp only [List.head?_cons]
  rw [if_pos (beq_self_eq_true quote)]
  rfl

theorem valueEnd_reference {fuel : Nat} (hquote : '&' ≠ quote) (hr : s.rest.head? = some '&') :
    valueEnd quote (fuel + 1) s =
      (valueReference >>= fun v => valueEnd quote fuel >>= fun more => pure (v ++ more)) s := by
  rw [valueEnd, bind_peek_apply, hr]
  dsimp only
  rw [if_neg (by simpa using hquote), if_neg (by decide), if_pos (by decide)]

theorem valueEnd_char {fuel : Nat} {c : Char} {r : List Char} (hquote : c ≠ quote) (hopen : c ≠ '<') (hamp : c ≠ '&')
    (hchar : isXmlChar c = true) (hr : s.rest = c :: r) :
    valueEnd quote (fuel + 1) s =
      (valueEnd quote fuel >>= fun more => pure (valueChar c :: more)) (s.advance 1) := by
  rw [valueEnd, bind_peek_apply, hr]
  dsimp only [List.head?_cons]
  rw [if_neg (by simpa using hquote), if_neg (by simpa using hopen), if_neg (by simpa using hamp), if_pos hchar,
    bind_skip_apply]

/-- A value that goes on: with a quote it ends, with a reference or a character it goes on. -/
theorem valueEnd_cases {fuel : Nat} {v : List Char} (h : valueEnd quote (fuel + 1) s = .ok (v, t)) :
    (∃ r, s.rest = quote :: r ∧ v = [] ∧ t = s.advance 1) ∨
      ('&' ≠ quote ∧ (∃ r, s.rest = '&' :: r) ∧ ∃ w m more, valueReference s = .ok (w, m) ∧
        valueEnd quote fuel m = .ok (more, t) ∧ v = w ++ more) ∨
      ∃ c r more, c ≠ quote ∧ c ≠ '<' ∧ c ≠ '&' ∧ isXmlChar c = true ∧ s.rest = c :: r ∧
        valueEnd quote fuel (s.advance 1) = .ok (more, t) ∧ v = valueChar c :: more := by
  rw [valueEnd, bind_peek_apply] at h
  generalize hhead : s.rest.head? = head at h
  cases head with
  | none => exact absurd h fail_eq_ok
  | some c =>
      have hrest := cons_of_head? hhead
      dsimp only at h
      obtain ⟨hclose, h⟩ | ⟨hclose, h⟩ := of_ite h
      · rw [bind_skip_apply] at h
        obtain ⟨rfl, rfl⟩ := pure_eq_ok.mp h
        obtain rfl := beq_iff_eq.mp hclose
        exact .inl ⟨_, hrest, rfl, rfl⟩
      have hquote : c ≠ quote := by simpa using hclose
      obtain ⟨-, h⟩ | ⟨hopen, h⟩ := of_ite h
      · exact absurd h fail_eq_ok
      obtain ⟨hamp, h⟩ | ⟨hamp, h⟩ := of_ite h
      · obtain rfl := beq_iff_eq.mp hamp
        obtain ⟨w, m, hw, h⟩ := bind_eq_ok.mp h
        obtain ⟨more, m', hmore, h⟩ := bind_eq_ok.mp h
        obtain ⟨rfl, rfl⟩ := pure_eq_ok.mp h
        exact .inr (.inl ⟨hquote, ⟨_, hrest⟩, w, m, more, hw, hmore, rfl⟩)
      obtain ⟨hchar, h⟩ | ⟨-, h⟩ := of_ite h
      · rw [bind_skip_apply] at h
        obtain ⟨more, m, hmore, h⟩ := bind_eq_ok.mp h
        obtain ⟨rfl, rfl⟩ := pure_eq_ok.mp h
        exact .inr (.inr ⟨c, _, more, hquote, by simpa using hopen, by simpa using hamp, hchar, hrest, hmore, rfl⟩)
      · exact absurd h fail_eq_ok

/-- A value is read again up to its quote, whatever follows it. -/
theorem repeats_valueEnd (hmark : quote = '"' ∨ quote = '\'') (hs : Undeclared s.docType) {fuel : Nat} {v : List Char}
    (h : valueEnd quote fuel s = .ok (v, t)) : Repeats Whatever (valueEnd quote) s v t := by
  induction fuel generalizing s v with
  | zero => exact absurd h fail_eq_ok
  | succ fuel ih =>
      obtain ⟨r, hr, rfl, rfl⟩ | ⟨hquote, ⟨r, hr⟩, w, m, more, hw, hmore, rfl⟩ |
        ⟨c, r, more, hquote, hopen, hamp, hchar, hr, hmore, rfl⟩ := valueEnd_cases h
      · refine Repeats.last (q := [quote]) ?_ fun k s' r' _ _ hs' => valueEnd_quote hs'
        rw [State.rest_advance, hr]
        rfl
      · have hagain := repeats_valueReference hs hr hw
        have hpassed : m.rest ≠ t.rest := fun heq => by
          obtain ⟨run, hrun, -⟩ := valueEnd_eq_ok hmark hmore
          have hlength := congrArg List.length hrun
          rw [heq, List.length_append, List.length_cons] at hlength
          omega
        have hmore := ih (hagain.undeclared hs) hmore
        obtain ⟨run, hrun, hne, -⟩ := valueReference_eq_ok hw hr
        refine hagain.part (f := fun w k => valueEnd quote k >>= fun more => pure (w ++ more)) (fun heq => hne ?_)
          (fun k s' hhead => valueEnd_reference hquote (hhead.trans (by rw [hr]; rfl)))
          (hmore.bind (Steady.pure _ _ _ _ (hmore.undeclared (hagain.undeclared hs)) rfl) extends_self)
          (extends_next hpassed)
        rw [heq] at hrun
        exact List.append_cancel_right (hrun.symm.trans (List.nil_append _).symm)
      · have hmore := ih (s := s.advance 1) (by simpa using hs) hmore
        refine Repeats.next (c := c) ?_ (fun k s' q r' _ _ hs' => valueEnd_char hquote hopen hamp hchar hs')
          (hmore.bind (Steady.pure _ _ _ _ (hmore.undeclared (by simpa using hs)) rfl) extends_self)
        rw [State.rest_advance, hr]
        rfl

theorem calm_valueEnd (hs : Undeclared s.docType) {fuel : Nat} {v : List Char}
    (h : valueEnd quote fuel s = .ok (v, t)) : Like s t := by
  induction fuel generalizing s v with
  | zero => exact absurd h fail_eq_ok
  | succ fuel ih =>
      obtain ⟨r, -, -, rfl⟩ | ⟨-, ⟨r, hr⟩, w, m, more, hw, hmore, -⟩ | ⟨c, r, more, -, -, -, -, -, hmore, -⟩ :=
        valueEnd_cases h
      · exact (Like.refl hs).advance 0 1
      · obtain ⟨c, hc, -⟩ := (valueReference_iff hs hr).mp hw
        have hlike := hc.like hs
        exact hlike.trans (ih hlike.symm.undeclared hmore)
      · exact ((Like.refl hs).advance 0 1).trans (ih (by simpa using hs) hmore)

theorem value_iff {v : List Char} : value s = .ok (v, t) ↔
    ∃ quote r, (quote = '"' ∨ quote = '\'') ∧ s.rest = quote :: r ∧
      valueEnd quote r.length.succ (s.advance 1) = .ok (v, t) := by
  unfold value
  rw [bind_peek_apply]
  generalize hhead : s.rest.head? = head
  cases head with
  | none =>
      constructor
      · exact fun h => absurd h fail_eq_ok
      · rintro ⟨quote, r, -, hr, -⟩
        rw [hr] at hhead
        cases hhead
  | some c =>
      have hrest := cons_of_head? hhead
      have hlength : (s.advance 1).rest = s.rest.drop 1 := State.rest_advance s 1
      dsimp only
      constructor
      · intro h
        obtain ⟨hquote, h⟩ | ⟨-, h⟩ := of_ite h
        · rw [bind_skip_apply, bind_remaining_apply, hlength] at h
          exact ⟨c, _, by simpa using hquote, hrest, h⟩
        · exact absurd h fail_eq_ok
      · rintro ⟨quote, r, hquote, hr, h⟩
        rw [hr] at hhead
        obtain rfl := Option.some.inj hhead
        rw [if_pos (by simpa using hquote), bind_skip_apply, bind_remaining_apply, hlength, hr]
        exact h

/-- A value is read again with its quotes, whatever follows it. -/
theorem Steady.value : Steady Whatever value := fun s v t hs h => by
  obtain ⟨quote, r, hquote, hr, hend⟩ := value_iff.mp h
  obtain ⟨q, hq, hagain⟩ := repeats_valueEnd hquote (s := s.advance 1) (by simpa using hs) hend
  refine ⟨quote :: q, ?_, fun _ s' r' _ hs' hr' hlike => ?_⟩
  · rw [hr, List.cons_append, ← hq, State.rest_advance, hr]
    rfl
  · obtain ⟨t', ht', hrest, hlike'⟩ := hagain (q ++ r').length.succ (s'.advance 1) r'
      (by rw [List.length_append]; omega) (by rw [State.rest_advance, hs']; rfl) hr' (hlike.advance 1 1)
    exact ⟨t', value_iff.mpr ⟨quote, q ++ r', hquote, hs', ht'⟩, hrest, hlike'⟩

theorem Calm.value : Calm value := fun s v t hs h => by
  obtain ⟨quote, r, -, -, hend⟩ := value_iff.mp h
  exact ((Like.refl hs).advance 0 1).trans (calm_valueEnd (by simpa using hs) hend)

end Values

end MarkupIds.Xml.Reading
