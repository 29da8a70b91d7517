import MarkupIds.Proofs.Xml.Reference

/-! A reading goes by the text that it passes and a little of what follows: on a text that begins the same
it does the same again. -/

namespace MarkupIds.Xml

namespace State

variable (s : State) (c : Char) (rest : List Char) (count : Nat)

/-- How grave the last problem is. -/
def tone : Option Severity := s.problems.head?.map (·.cause.severity)

@[simp] theorem docType_step : (s.step c rest).docType = s.docType := by
  unfold step
  split <;> rfl

@[simp] theorem ids_step : (s.step c rest).ids = s.ids := by
  unfold step
  split <;> rfl

@[simp] theorem problems_step : (s.step c rest).problems = s.problems := by
  unfold step
  split <;> rfl

@[simp] theorem docType_advance : (s.advance count).docType = s.docType := by
  induction count generalizing s with
  | zero => rfl
  | succ count ih =>
      rw [advance]
      split
      next => rfl
      next => rw [ih, docType_step]

@[simp] theorem ids_advance : (s.advance count).ids = s.ids := by
  induction count generalizing s with
  | zero => rfl
  | succ count ih =>
      rw [advance]
      split
      next => rfl
      next => rw [ih, ids_step]

@[simp] theorem problems_advance : (s.advance count).problems = s.problems := by
  induction count generalizing s with
  | zero => rfl
  | succ count ih =>
      rw [advance]
      split
      next => rfl
      next => rw [ih, problems_step]

@[simp] theorem cause_problem (cause : Cause) : (s.problem cause).cause = cause := by
  unfold problem
  split <;> rfl

end State

/-- Nothing is declared beside whether the document stands alone. -/
def Undeclared (d : DocType) : Prop := ∃ b, d = { standalone := b }

/-- States of two readings that have found the same beside their texts, where nothing is declared. -/
structure Like (s s' : State) : Prop where
  undeclared : Undeclared s.docType
  docType : s'.docType = s.docType
  ids : s'.ids = s.ids
  tone : s'.tone = s.tone

namespace Like

variable {s s' t t' : State}

theorem refl (h : Undeclared s.docType) : Like s s := ⟨h, rfl, rfl, rfl⟩

theorem symm (h : Like s s') : Like s' s := ⟨h.docType ▸ h.undeclared, h.docType.symm, h.ids.symm, h.tone.symm⟩

theorem trans {s'' : State} (h : Like s s') (h' : Like s' s'') : Like s s'' :=
  ⟨h.undeclared, h'.docType.trans h.docType, h'.ids.trans h.ids, h'.tone.trans h.tone⟩

theorem advance (h : Like s s') (count count' : Nat) : Like (s.advance count) (s'.advance count') := by
  obtain ⟨hundeclared, hdocType, hids, htone⟩ := h
  unfold State.tone at htone
  constructor
  · simpa using hundeclared
  · simpa using hdocType
  · simpa using hids
  · simpa [State.tone] using htone

theorem problem (h : Like s s') {p p' : Problem} (hp : p'.cause.severity = p.cause.severity) :
    Like { s with problems := p :: s.problems } { s' with problems := p' :: s'.problems } :=
  ⟨h.undeclared, h.docType, h.ids, congrArg some hp⟩

end Like

/-- Two texts with a common beginning that goes beyond a character of a kind, or one and the same text. -/
def Share (p : Char → Prop) (r r' : List Char) : Prop :=
  r = r' ∨ ∃ u c w w', p c ∧ r = u ++ c :: w ∧ r' = u ++ c :: w'

namespace Share

variable {p : Char → Prop} {r r' : List Char}

theorem append (q : List Char) (h : Share p r r') : Share p (q ++ r) (q ++ r') := by
  obtain rfl | ⟨u, c, w, w', hc, rfl, rfl⟩ := h
  · exact .inl rfl
  · exact .inr ⟨q ++ u, c, w, w', hc, by simp, by simp⟩

theorem of_mem {q : List Char} {c : Char} (hc : p c) (hmem : c ∈ q) (r r' : List Char) :
    Share p (q ++ r) (q ++ r') := by
  obtain ⟨u, v, rfl⟩ := List.mem_iff_append.mp hmem
  exact .inr ⟨u, c, v ++ r, v ++ r', hc, by simp, by simp⟩

theorem head?_eq (h : Share p r r') : r'.head? = r.head? := by
  obtain rfl | ⟨u, c, w, w', -, rfl, rfl⟩ := h
  · rfl
  · cases u <;> rfl

theorem mono {p' : Char → Prop} (hp : ∀ c, p c → p' c) (h : Share p r r') : Share p' r r' := by
  obtain rfl | ⟨u, c, w, w', hc, hr, hr'⟩ := h
  · exact .inl rfl
  · exact .inr ⟨u, c, w, w', hp c hc, hr, hr'⟩

/-- A mark without characters of the kind is in front of both texts or of none. -/
theorem isPrefixOf_eq {mark : List Char} (hmark : ∀ c ∈ mark, ¬ p c) (h : Share p r r') :
    mark.isPrefixOf r' = mark.isPrefixOf r := by
  obtain rfl | ⟨u, c, w, w', hc, rfl, rfl⟩ := h
  · rfl
  · induction mark generalizing u with
    | nil => rfl
    | cons d mark ih =>
        obtain ⟨hd, hmark⟩ := List.forall_mem_cons.mp hmark
        cases u with
        | nil =>
            have hne : (d == c) = false := beq_eq_false_iff_ne.mpr fun heq => hd (heq ▸ hc)
            simp only [List.nil_append, List.isPrefixOf, hne, Bool.false_and]
        | cons e u =>
            rw [List.cons_append, List.cons_append, List.isPrefixOf, List.isPrefixOf, ih hmark]

end Share

namespace Reading

variable {α β γ : Type} {s m t : State} {A B : List Char → List Char → Prop}

section Names

theorem bind_congr_ok {x : Reading α} {f g : α → Reading β} (h : ∀ a m, x s = .ok (a, m) → f a m = g a m) :
    (x >>= f) s = (x >>= g) s := by
  change (x s).bind (fun r => f r.1 r.2) = (x s).bind (fun r => g r.1 r.2)
  cases hx : x s with
  | error e => rfl
  | ok r => exact h r.1 r.2 hx

/-- The reading of a name by its parts alone. -/
def nameParts : Reading (Option (List Char) × List Char) := do
  let first ← localName
  if (← peek) != some ':' then return (none, first)
  else if first.isEmpty then malformed []
  else
    skip 1
    let second ← localName
    if second.isEmpty || (← peek) == some ':' then malformed (first ++ ':' :: second)
    else return (some first, second)
where
  /-- A name that cannot be parted goes on to the end of its characters. -/
  malformed (before : List Char) : Reading (Option (List Char) × List Char) := do
    let more ← takeWhile isNameChar
    note (.nameMalformed (String.ofList (before ++ more)))
    return (none, before ++ more)

theorem qualifiedName_eq : qualifiedName = nameParts := by
  funext s
  have hmalformed {k : State} {before : List Char} (hk : s.rest = before ++ k.rest) :
      (takeWhile isNameChar >>= fun _ => remaining >>= fun rest =>
        note (.nameMalformed (String.ofList (s.rest.take (s.rest.length - rest.length)))) >>= fun _ =>
          pure (none, s.rest.take (s.rest.length - rest.length))) k = nameParts.malformed before k := by
    refine bind_congr_ok fun more m hmore => ?_
    have hall : s.rest = (before ++ more) ++ m.rest := by
      rw [hk, (ran_takeWhile hmore).text_eq, List.append_assoc]
    rw [bind_remaining_apply, take_of_append hall]
  unfold qualifiedName
  rw [bind_remaining_apply]
  refine bind_congr_ok fun first m hfirst => ?_
  obtain ⟨hrest, -⟩ := ran_localName hfirst
  by_cases hcolon : m.rest.head? = some ':'
  · cases first with
    | nil =>
        simp only [bind_peek_apply, List.isEmpty_nil, hcolon]
        exact hmalformed hrest
    | cons c first =>
        simp only [bind_peek_apply, List.isEmpty_cons, hcolon, Bool.not_false, Bool.true_and, Bool.false_and,
          Bool.false_eq_true, if_false, if_true, bne_self_eq_false, bind_skip_apply]
        refine bind_congr_ok fun second k hsecond => ?_
        obtain ⟨hbehind, -⟩ := ran_localName hsecond
        have hk : s.rest = ((c :: first) ++ ':' :: second) ++ k.rest := by
          rw [hrest, cons_of_head? hcolon, ← State.rest_advance, hbehind]
          simp
        simp only [bind_peek_apply]
        split
        next => exact hmalformed hk
        next => rfl
  · have hne : (m.rest.head? != some ':') = true := bne_iff_ne.mpr hcolon
    cases first with
    | nil => simp only [bind_peek_apply, List.isEmpty_nil, hne, Bool.and_self, if_true]
    | cons c first =>
        simp only [bind_peek_apply, List.isEmpty_cons, hne, Bool.false_and, Bool.false_eq_true, if_false,
          Bool.not_false, Bool.and_self, if_true]

end Names

theorem rest_eq_cons_advance {c : Char} {r : List Char} (hr : s.rest = c :: r) : s.rest = c :: (s.advance 1).rest := by
  rw [State.rest_advance, hr]
  rfl

/-- What a reading did it does again, with enough fuel, on a text that begins with what it passed; `A` says
how far what follows has to go on the same. -/
def Repeats (A : List Char → List Char → Prop) (x : Nat → Reading α) (s : State) (a : α) (t : State) : Prop :=
  ∃ q, s.rest = q ++ t.rest ∧ ∀ k s' r', q.length < k → s'.rest = q ++ r' → A t.rest r' → Like s s' →
    ∃ t', x k s' = .ok (a, t') ∧ t'.rest = r' ∧ Like t t'

/-- Whatever follows. -/
def Whatever (_ _ : List Char) : Prop := True

/-- The next character is the same. -/
abbrev Next : List Char → List Char → Prop := Share fun _ => True

/-- A condition on what follows that goes for longer texts as well. -/
class IsAhead (A : List Char → List Char → Prop) : Prop where
  refl : ∀ r, A r r
  append : ∀ q r r', A r r' → A (q ++ r) (q ++ r')

instance (p : Char → Prop) : IsAhead (Share p) := ⟨fun _ => .inl rfl, fun q _ _ h => h.append q⟩

instance : IsAhead Whatever := ⟨fun _ => trivial, fun _ _ _ _ => trivial⟩

/-- A condition on what a reading leaves gives one on what it began with. -/
def Extends (A B : List Char → List Char → Prop) (m t : State) : Prop :=
  ∀ q r', m.rest = q ++ t.rest → B t.rest r' → A m.rest (q ++ r')

theorem extends_self [IsAhead A] : Extends A A m t := fun q r' hm h => by
  rw [hm]
  exact IsAhead.append q _ _ h

theorem extends_of_mem {p : Char → Prop} {q : List Char} {c : Char} (hm : m.rest = q ++ t.rest) (hc : p c)
    (hmem : c ∈ q) : Extends (Share p) B m t := fun q' r' hm' _ => by
  obtain rfl := List.append_cancel_right (hm.symm.trans hm')
  rw [hm]
  exact .of_mem hc hmem _ _

theorem extends_next (hm : m.rest ≠ t.rest) : Extends Next B m t := fun q r' hm' _ => by
  rw [hm']
  cases q with
  | nil => exact absurd hm' hm
  | cons c q => exact .of_mem trivial List.mem_cons_self _ _

namespace Repeats

theorem bind {x : Nat → Reading α} {f : α → Nat → Reading β} {a : α} {b : β} (hx : Repeats A x s a m)
    (hf : Repeats B (f a) m b t) (hext : Extends A B m t) : Repeats B (fun k => x k >>= fun a => f a k) s b t := by
  obtain ⟨q, hq, hx⟩ := hx
  obtain ⟨q', hq', hf⟩ := hf
  refine ⟨q ++ q', by rw [hq, hq', List.append_assoc], fun k s' r' hk hs' hr' hlike => ?_⟩
  rw [List.length_append] at hk
  rw [List.append_assoc] at hs'
  obtain ⟨m', hm', hrest, hlike⟩ := hx k s' (q' ++ r') (by omega) hs' (hext q' r' hq' hr') hlike
  obtain ⟨t', ht', hrest, hlike⟩ := hf k m' r' (by omega) hrest hr' hlike
  exact ⟨t', bind_eq_ok.mpr ⟨a, m', hm', ht'⟩, hrest, hlike⟩

/-- Nothing is declared on the way. -/
theorem undeclared [IsAhead A] {x : Nat → Reading α} {a : α} (h : Repeats A x s a t) (hs : Undeclared s.docType) :
    Undeclared t.docType := by
  obtain ⟨q, hq, h⟩ := h
  obtain ⟨t', -, -, hlike⟩ := h (q.length + 1) s t.rest (Nat.lt_succ_self _) hq (IsAhead.refl _) (.refl hs)
  exact hlike.undeclared

theorem mono {x : Nat → Reading α} {a : α} (h : Repeats A x s a t) (hAB : ∀ r', B t.rest r' → A t.rest r') :
    Repeats B x s a t := by
  obtain ⟨q, hq, h⟩ := h
  exact ⟨q, hq, fun k s' r' hk hs' hr' => h k s' r' hk hs' (hAB r' hr')⟩

/-- A loop over the rest of the text has enough fuel. -/
theorem fuel {x : Nat → Reading α} {a : α} (h : Repeats A x s a t) :
    Repeats A (fun _ => remaining >>= fun r => x r.length.succ) s a t := by
  obtain ⟨q, hq, h⟩ := h
  refine ⟨q, hq, fun _ s' r' _ hs' hr' hlike => h s'.rest.length.succ s' r' ?_ hs' hr' hlike⟩
  rw [hs', List.length_append]
  omega

/-- One more character of a loop. -/
theorem next {x y : Nat → Reading α} {a : α} {c : Char} (hs : s.rest = c :: (s.advance 1).rest)
    (hstep : ∀ k s' q r', (s.advance 1).rest = q ++ t.rest → A t.rest r' → s'.rest = c :: (q ++ r') →
      x (k + 1) s' = y k (s'.advance 1))
    (h : Repeats A y (s.advance 1) a t) : Repeats A x s a t := by
  obtain ⟨q, hq, h⟩ := h
  refine ⟨c :: q, by rw [hs, hq]; rfl, fun k s' r' hk hs' hr' hlike => ?_⟩
  obtain ⟨k, rfl⟩ : ∃ j, k = j + 1 := ⟨k - 1, by omega⟩
  rw [hstep k s' q r' hq hr' hs']
  refine h k _ r' ?_ ?_ hr' (hlike.advance 1 1)
  · rw [List.length_cons] at hk
    omega
  · rw [State.rest_advance, hs']
    rfl

/-- A part of a loop that is a reading of its own. -/
theorem part {x : Nat → Reading α} {y : Reading γ} {f : γ → Nat → Reading α} {a : α} {c : γ}
    (hy : Repeats A (fun _ => y) s c m) (hne : m.rest ≠ s.rest)
    (hstep : ∀ k s', s'.rest.head? = s.rest.head? → x (k + 1) s' = (y >>= fun c => f c k) s')
    (hf : Repeats B (f c) m a t) (hext : Extends A B m t) : Repeats B x s a t := by
  obtain ⟨q, hq, hy⟩ := hy
  obtain ⟨q', hq', hf⟩ := hf
  obtain ⟨d, q, rfl⟩ : ∃ d q'', q = d :: q'' := List.exists_cons_of_ne_nil fun hnil => hne (by rw [hq, hnil]; rfl)
  refine ⟨d :: q ++ q', by rw [hq, hq', List.append_assoc], fun k s' r' hk hs' hr' hlike => ?_⟩
  obtain ⟨k, rfl⟩ : ∃ j, k = j + 1 := ⟨k - 1, by omega⟩
  rw [List.length_append, List.length_cons] at hk
  rw [List.append_assoc] at hs'
  obtain ⟨m', hm', hrest, hlike⟩ := hy (k + 1) s' (q' ++ r') (by rw [List.length_cons]; omega) hs' (hext q' r' hq' hr') hlike
  obtain ⟨t', ht', hrest, hlike⟩ := hf k m' r' (by omega) hrest hr' hlike
  refine ⟨t', ?_, hrest, hlike⟩
  rw [hstep k s' (by rw [hs', hq]; rfl)]
  exact bind_eq_ok.mpr ⟨c, m', hm', ht'⟩

/-- The end of a loop. -/
theorem last {x : Nat → Reading α} {a : α} {q : List Char} (hs : s.rest = q ++ (s.advance q.length).rest)
    (hstep : ∀ k s' r', q.length ≤ k → A (s.advance q.length).rest r' → s'.rest = q ++ r' →
      x (k + 1) s' = .ok (a, s'.advance q.length)) : Repeats A x s a (s.advance q.length) := by
  refine ⟨q, hs, fun k s' r' hk hs' hr' hlike => ?_⟩
  obtain ⟨k, rfl⟩ : ∃ j, k = j + 1 := ⟨k - 1, by omega⟩
  refine ⟨_, hstep k s' r' (by omega) hr' hs', ?_, hlike.advance _ _⟩
  rw [State.rest_advance, hs', List.drop_left]

end Repeats

/-- A reading that does again whatever it did, where nothing is declared. -/
def Steady (A : List Char → List Char → Prop) (x : Reading α) : Prop :=
  ∀ s a t, Undeclared s.docType → x s = .ok (a, t) → Repeats A (fun _ => x) s a t

namespace Steady

theorem pure (a : α) : Steady A (Pure.pure a) := fun s b t _ h => by
  obtain ⟨rfl, rfl⟩ := pure_eq_ok.mp h
  exact ⟨[], rfl, fun _ s' r' _ hs' _ hlike => ⟨s', rfl, hs', hlike⟩⟩

theorem fail (cause : Cause) : Steady A (Reading.fail cause : Reading α) := fun _ _ _ _ h => absurd h fail_eq_ok

theorem note (cause : Cause) : Steady A (Reading.note cause) := fun s u t _ h => by
  cases h
  exact ⟨[], rfl, fun _ s' r' _ hs' _ hlike => ⟨_, rfl, hs', hlike.problem (by simp)⟩⟩

theorem bind [IsAhead A] {x : Reading α} {f : α → Reading β} (hx : Steady A x) (hf : ∀ a, Steady A (f a)) :
    Steady A (x >>= f) := fun s b t hs h => by
  obtain ⟨a, m, hfirst, hrest⟩ := bind_eq_ok.mp h
  have hfirst := hx s a m hs hfirst
  exact hfirst.bind (hf a m b t (hfirst.undeclared hs) hrest) extends_self

theorem ite {c : Prop} [Decidable c] {x y : Reading α} (hx : Steady A x) (hy : Steady A y) :
    Steady A (if c then x else y) := by
  split <;> assumption

theorem fuel {x : Nat → Reading α}
    (h : ∀ s a t, Undeclared s.docType → x s.rest.length.succ s = .ok (a, t) → Repeats A x s a t) :
    Steady A (remaining >>= fun r => x r.length.succ) := fun s a t hs hx => (h s a t hs hx).fuel

theorem fuel_bind [IsAhead A] {x : Nat → Reading α} {f : α → Reading β}
    (h : ∀ s a t, Undeclared s.docType → x s.rest.length.succ s = .ok (a, t) → Repeats A x s a t)
    (hf : ∀ a, Steady A (f a)) : Steady A (remaining >>= fun r => x r.length.succ >>= f) :=
  fuel (x := fun k => x k >>= f) fun s b t hs hx => by
    obtain ⟨a, m, hfirst, hrest⟩ := bind_eq_ok.mp hx
    have hfirst := h s a m hs hfirst
    exact hfirst.bind (hf a m b t (hfirst.undeclared hs) hrest) extends_self

theorem mono {x : Reading α} (h : Steady A x) (hAB : ∀ r r', B r r' → A r r') : Steady B x :=
  fun s a t hs hx => (h s a t hs hx).mono fun r' => hAB t.rest r'

/-- A reading goes on by what comes next, if no more of that is asked than follows the same. -/
theorem peek_bind [IsAhead A] {f : Option Char → Reading α} {ask : Option Char → β}
    (hA : ∀ r r', A r r' → ask r'.head? = ask r.head?) {g : β → Reading α} (hf : ∀ head, f head = g (ask head))
    (hg : ∀ b, Steady A (g b)) : Steady A (Reading.peek >>= f) := fun s a t hs h => by
  rw [bind_peek_apply, hf] at h
  obtain ⟨q, hq, hagain⟩ := hg _ s a t hs h
  refine ⟨q, hq, fun k s' r' hk hs' hr' hlike => ?_⟩
  dsimp only
  rw [bind_peek_apply, hf, hs', hA _ _ (IsAhead.append q _ _ hr'), ← hq]
  exact hagain k s' r' hk hs' hr' hlike

theorem skip_of (hA : ∀ r', A [] r' → r' = []) (count : Nat) : Steady A (skip count) := fun s u t _ h => by
  cases h
  refine ⟨s.rest.take count, ?_, fun _ s' r' _ hs' hr' hlike => ⟨s'.advance count, rfl, ?_, hlike.advance _ _⟩⟩
  · rw [State.rest_advance, List.take_append_drop]
  rw [State.rest_advance] at hr' ⊢
  rw [hs']
  by_cases hle : count ≤ s.rest.length
  · have hlength : (s.rest.take count).length = count := by rw [List.length_take, Nat.min_eq_left hle]
    calc (s.rest.take count ++ r').drop count
        = (s.rest.take count ++ r').drop (s.rest.take count).length := by rw [hlength]
      _ = r' := List.drop_left
  · -- nothing is left of the text, so nothing follows in the other one either
    have hdrop : s.rest.drop count = [] := List.drop_eq_nil_iff.mpr (by omega)
    rw [hdrop] at hr'
    rw [hA r' hr', List.append_nil, List.drop_eq_nil_iff, List.length_take]
    omega

/-- Nothing that satisfies `f` comes next. -/
def NoneNext (f : Char → Bool) (r : List Char) : Prop := ∀ c, r.head? = some c → f c = false

theorem takeWhile_of {f : Char → Bool} (hA : ∀ r r', A r r' → NoneNext f r → NoneNext f r') :
    Steady A (takeWhile f) := fun s a t _ h => by
  have hran := ran_takeWhile h
  refine ⟨a, hran.text_eq, fun _ s' r' _ hs' hr' hlike => ⟨s'.advance a.length, ?_, ?_, ?_⟩⟩
  · have htake : s'.rest.takeWhile f = a := by
      rw [hs', List.takeWhile_append_of_pos hran.all]
      have hempty : r'.takeWhile f = [] := by
        cases r' with
        | nil => rfl
        | cons c r' =>
            have hhead := hA _ _ hr' hran.ends c rfl
            exact List.takeWhile_cons_of_neg (by rw [hhead]; exact Bool.false_ne_true)
      rw [hempty, List.append_nil]
    exact takeWhile_eq_ok.mpr ⟨htake, by rw [htake]⟩
  · rw [State.rest_advance, hs', List.drop_left]
  · rw [← (takeWhile_eq_ok.mp h).2]
    exact hlike.advance _ _

variable {p : Char → Prop}

theorem peek : Steady (Share p) peek := fun s a t _ h => by
  cases h
  refine ⟨[], rfl, fun _ s' r' _ hs' hr' hlike => ⟨s', ?_, hs', hlike⟩⟩
  obtain rfl : s'.rest = r' := hs'
  exact congrArg (fun head => Except.ok (head, s')) hr'.head?_eq

theorem skip (count : Nat) : Steady (Share p) (skip count) :=
  skip_of (fun _ h => List.head?_eq_none_iff.mp h.head?_eq) count

theorem takeWhile (f : Char → Bool) : Steady (Share p) (takeWhile f) :=
  takeWhile_of fun _ _ h hnone c hc => hnone c (h.head?_eq ▸ hc)

theorem accept {mark : List Char} (hmark : ∀ c ∈ mark, ¬ p c) : Steady (Share p) (accept mark) := fun s b t _ h => by
  obtain ⟨hstarts, ht⟩ := accept_eq_ok.mp h
  cases b with
  | true =>
      obtain rfl : t = s.advance mark.length := ht
      refine ⟨mark, accept_true h, fun _ s' r' _ hs' hr' hlike => ⟨s'.advance mark.length, ?_, ?_, hlike.advance _ _⟩⟩
      · exact accept_eq_ok.mpr ⟨List.isPrefixOf_iff_prefix.mpr ⟨r', hs'.symm⟩, rfl⟩
      · rw [State.rest_advance, hs', List.drop_left]
  | false =>
      obtain rfl : t = s := ht
      refine ⟨[], rfl, fun _ s' r' _ hs' hr' hlike => ⟨s', ?_, hs', hlike⟩⟩
      obtain rfl : s'.rest = r' := hs'
      exact accept_eq_ok.mpr ⟨(hr'.isPrefixOf_eq hmark).trans hstarts, rfl⟩

theorem accept_single (c : Char) : Steady (Share p) (Reading.accept [c]) := fun s b t hs h => by
  have hhead (r : List Char) : [c].isPrefixOf r = (r.head? == some c) := by
    cases r with
    | nil => rfl
    | cons d r => simp [List.isPrefixOf, eq_comm]
  obtain ⟨hstarts, ht⟩ := accept_eq_ok.mp h
  cases b with
  | true =>
      obtain rfl : t = s.advance 1 := ht
      refine ⟨[c], accept_true h, fun _ s' r' _ hs' hr' hlike => ⟨s'.advance 1, ?_, ?_, hlike.advance _ _⟩⟩
      · exact accept_eq_ok.mpr ⟨List.isPrefixOf_iff_prefix.mpr ⟨r', hs'.symm⟩, rfl⟩
      · rw [State.rest_advance, hs']
        rfl
  | false =>
      obtain rfl : t = s := ht
      refine ⟨[], rfl, fun _ s' r' _ hs' hr' hlike => ⟨s', ?_, hs', hlike⟩⟩
      obtain rfl : s'.rest = r' := hs'
      refine accept_eq_ok.mpr ⟨?_, rfl⟩
      rw [← hstarts, hhead, hhead, hr'.head?_eq]

theorem expect (mark : List Char) (cause : Cause) : Steady A (expect mark cause) := fun s u t _ h => by
  obtain ⟨b, m, haccept, hrest⟩ := bind_eq_ok.mp h
  cases b with
  | false => exact absurd hrest fail_eq_ok
  | true =>
      obtain ⟨-, rfl⟩ := pure_eq_ok.mp hrest
      obtain ⟨-, rfl⟩ := accept_eq_ok.mp haccept
      refine ⟨mark, accept_true haccept, fun _ s' r' _ hs' _ hlike =>
        ⟨s'.advance mark.length, ?_, ?_, hlike.advance _ _⟩⟩
      · exact bind_eq_ok.mpr ⟨true, _, accept_eq_ok.mpr ⟨List.isPrefixOf_iff_prefix.mpr ⟨r', hs'.symm⟩, rfl⟩, rfl⟩
      · rw [State.rest_advance, hs', List.drop_left]

theorem spaces : Steady (Share p) spaces := (takeWhile isSpace).bind fun _ => .pure _

theorem someSpace (cause : Cause) : Steady (Share p) (someSpace cause) :=
  spaces.bind fun b => by
    cases b with
    | true => exact .pure ()
    | false => exact .fail cause

theorem noNull : Steady (Share p) noNull := peek.bind fun _ => (Steady.fail _).ite (.pure _)

theorem name : Steady (Share p) name := by
  unfold Reading.name
  refine peek.bind fun first => ?_
  cases first with
  | none => exact .pure _
  | some c =>
      have hrest (n : List Char) : Steady (Share p) (Reading.noNull >>= fun _ => Pure.pure n) :=
        noNull.bind fun _ => .pure n
      exact ((takeWhile isNameChar).bind hrest).ite (hrest [])

theorem localName : Steady (Share p) localName := by
  unfold Reading.localName
  refine peek.bind fun first => ?_
  cases first with
  | none => exact .pure _
  | some c =>
      have hrest (n : List Char) : Steady (Share p) (Reading.noNull >>= fun _ => Pure.pure n) :=
        noNull.bind fun _ => .pure n
      exact ((takeWhile isLocalChar).bind hrest).ite (hrest [])

theorem qualifiedName : Steady (Share p) qualifiedName := by
  rw [qualifiedName_eq]
  have hmalformed (before : List Char) : Steady (Share p) (nameParts.malformed before) :=
    (takeWhile isNameChar).bind fun _ => (note _).bind fun _ => .pure _
  refine localName.bind fun first => peek.bind fun head => ?_
  refine (Steady.pure _).ite ((hmalformed []).ite ((skip 1).bind fun _ => localName.bind fun second => ?_))
  exact peek.bind fun _ => (hmalformed _).ite (.pure _)

end Steady

/-- A reading that finds nothing beside its result, where nothing is declared. -/
def Calm (x : Reading α) : Prop := ∀ s a t, Undeclared s.docType → x s = .ok (a, t) → Like s t

namespace Calm

theorem pure (a : α) : Calm (Pure.pure a) := fun s b t hs h => by
  obtain ⟨-, rfl⟩ := pure_eq_ok.mp h
  exact .refl hs

theorem fail (cause : Cause) : Calm (Reading.fail cause : Reading α) := fun _ _ _ _ h => absurd h fail_eq_ok

theorem bind {x : Reading α} {f : α → Reading β} (hx : Calm x) (hf : ∀ a, Calm (f a)) : Calm (x >>= f) :=
  fun s b t hs h => by
    obtain ⟨a, m, hfirst, hrest⟩ := bind_eq_ok.mp h
    have hlike := hx s a m hs hfirst
    exact hlike.trans (hf a m b t hlike.symm.undeclared hrest)

theorem ite {c : Prop} [Decidable c] {x y : Reading α} (hx : Calm x) (hy : Calm y) : Calm (if c then x else y) := by
  split <;> assumption

theorem peek : Calm peek := fun s a t hs h => by
  cases h
  exact .refl hs

theorem remaining : Calm remaining := fun s a t hs h => by
  cases h
  exact .refl hs

theorem skip (count : Nat) : Calm (skip count) := fun s a t hs h => by
  cases h
  exact (Like.refl hs).advance 0 count

theorem takeWhile (f : Char → Bool) : Calm (takeWhile f) := fun s a t hs h => by
  cases h
  exact (Like.refl hs).advance 0 _

theorem accept (mark : List Char) : Calm (accept mark) := fun s b t hs h => by
  obtain ⟨-, rfl⟩ := accept_eq_ok.mp h
  cases b with
  | true => exact (Like.refl hs).advance 0 _
  | false => exact .refl hs

theorem expect (mark : List Char) (cause : Cause) : Calm (expect mark cause) :=
  (accept mark).bind fun b => by
    cases b with
    | true => exact .pure ()
    | false => exact .fail cause

theorem spaces : Calm spaces := (takeWhile isSpace).bind fun _ => .pure _

theorem noNull : Calm noNull := peek.bind fun _ => (Calm.fail _).ite (.pure _)

theorem name : Calm name := by
  unfold Reading.name
  refine peek.bind fun first => ?_
  cases first with
  | none => exact .pure _
  | some c =>
      have hrest (n : List Char) : Calm (Reading.noNull >>= fun _ => Pure.pure n) := noNull.bind fun _ => .pure n
      exact ((takeWhile isNameChar).bind hrest).ite (hrest [])

theorem localName : Calm localName := by
  unfold Reading.localName
  refine peek.bind fun first => ?_
  cases first with
  | none => exact .pure _
  | some c =>
      have hrest (n : List Char) : Calm (Reading.noNull >>= fun _ => Pure.pure n) := noNull.bind fun _ => .pure n
      exact ((takeWhile isLocalChar).bind hrest).ite (hrest [])

end Calm

end Reading

end MarkupIds.Xml
