import Mathlib.Data.List.TakeWhile
import MarkupIds.Xml.Names

/-! Readings that go well, taken apart: what each step of a reading passes of the text. -/

namespace MarkupIds.Xml

@[simp] theorem State.rest_step (s : State) (c : Char) (rest : List Char) : (s.step c rest).rest = rest := by
  unfold step
  split <;> rfl

@[simp] theorem State.rest_advance (s : State) (count : Nat) : (s.advance count).rest = s.rest.drop count := by
  induction count generalizing s with
  | zero => rfl
  | succ count ih =>
      rw [advance]
      split
      next h => rw [h, List.drop_nil]
      next c rest h => rw [ih, rest_step, h, List.drop_succ_cons]

namespace Reading

variable {α β : Type} {s t : State}

theorem bind_eq_ok {x : Reading α} {f : α → Reading β} {b : β} :
    (x >>= f) s = .ok (b, t) ↔ ∃ a m, x s = .ok (a, m) ∧ f a m = .ok (b, t) := by
  change (x s).bind (fun r => f r.1 r.2) = .ok (b, t) ↔ _
  cases hx : x s with
  | error e => simp [Except.bind]
  | ok r =>
      obtain ⟨a, m⟩ := r
      constructor
      · exact fun h => ⟨a, m, rfl, h⟩
      · rintro ⟨a', m', heq, h⟩
        cases heq
        exact h

@[simp] theorem pure_eq_ok {a b : α} : (pure a : Reading α) s = .ok (b, t) ↔ a = b ∧ s = t := by
  change Except.ok (a, s) = Except.ok (b, t) ↔ _
  simp

@[simp] theorem fail_eq_ok {cause : Cause} {a : α} : ¬ (fail cause : Reading α) s = .ok (a, t) := by
  intro h
  cases h

@[simp] theorem bind_pure_apply (a : α) (f : α → Reading β) (s : State) : (pure a >>= f) s = f a s := rfl

@[simp] theorem bind_fail_apply (cause : Cause) (f : α → Reading β) (s : State) :
    (fail cause >>= f) s = fail cause s := rfl

@[simp] theorem bind_get_apply (f : State → Reading β) (s : State) : (get >>= f) s = f s s := rfl

@[simp] theorem bind_set_apply (a : State) (f : PUnit → Reading β) (s : State) :
    (set a >>= f) s = f ⟨⟩ a := rfl

@[simp] theorem bind_modify_apply (g : State → State) (f : PUnit → Reading β) (s : State) :
    (modify g >>= f) s = f ⟨⟩ (g s) := rfl

@[simp] theorem bind_note_apply (cause : Cause) (f : Unit → Reading β) (s : State) :
    (note cause >>= f) s = f () { s with problems := s.problem cause :: s.problems } := rfl

@[simp] theorem bind_remaining_apply (f : List Char → Reading β) (s : State) :
    (remaining >>= f) s = f s.rest s := rfl

@[simp] theorem bind_peek_apply (f : Option Char → Reading β) (s : State) :
    (peek >>= f) s = f s.rest.head? s := rfl

@[simp] theorem bind_sees_apply (mark : List Char) (f : Bool → Reading β) (s : State) :
    (sees mark >>= f) s = f (mark.isPrefixOf s.rest) s := rfl

@[simp] theorem bind_skip_apply (count : Nat) (f : Unit → Reading β) (s : State) :
    (skip count >>= f) s = f () (s.advance count) := rfl

@[simp] theorem bind_docType_apply (f : DocType → Reading β) (s : State) :
    (docType >>= f) s = f s.docType s := rfl

@[simp] theorem bind_declare_apply (g : DocType → DocType) (f : Unit → Reading β) (s : State) :
    (declare g >>= f) s = f () { s with docType := g s.docType } := rfl

theorem takeWhile_eq_ok {p : Char → Bool} {a : List Char} :
    takeWhile p s = .ok (a, t) ↔ s.rest.takeWhile p = a ∧ s.advance (s.rest.takeWhile p).length = t := by
  change Except.ok (_, _) = Except.ok (a, t) ↔ _
  simp

theorem accept_eq_ok {mark : List Char} {b : Bool} :
    accept mark s = .ok (b, t) ↔
      mark.isPrefixOf s.rest = b ∧ t = if b then s.advance mark.length else s := by
  unfold accept
  cases hmark : mark.isPrefixOf s.rest <;> cases b <;> simp [eq_comm]

theorem accept_true {mark : List Char} (h : accept mark s = .ok (true, t)) : s.rest = mark ++ t.rest := by
  obtain ⟨hmark, rfl⟩ := accept_eq_ok.mp h
  obtain ⟨r, hr⟩ := List.isPrefixOf_iff_prefix.mp hmark
  rw [if_pos rfl, State.rest_advance, ← hr, List.drop_left]

theorem accept_false {mark : List Char} (h : accept mark s = .ok (false, t)) :
    ¬ mark <+: s.rest ∧ t = s := by
  obtain ⟨hmark, rfl⟩ := accept_eq_ok.mp h
  refine ⟨fun hprefix => ?_, rfl⟩
  rw [List.isPrefixOf_iff_prefix.mpr hprefix] at hmark
  cases hmark

theorem expect_eq_ok {mark : List Char} {cause : Cause} {u : Unit} (h : expect mark cause s = .ok (u, t)) :
    s.rest = mark ++ t.rest := by
  unfold expect at h
  obtain ⟨b, m, haccept, h⟩ := bind_eq_ok.mp h
  cases b with
  | true =>
      obtain ⟨-, rfl⟩ := pure_eq_ok.mp h
      exact accept_true haccept
  | false => exact absurd h fail_eq_ok

theorem rest_takeWhile {p : Char → Bool} {a : List Char} (h : takeWhile p s = .ok (a, t)) :
    s.rest.takeWhile p = a ∧ t.rest = s.rest.dropWhile p := by
  obtain ⟨ha, rfl⟩ := takeWhile_eq_ok.mp h
  refine ⟨ha, ?_⟩
  have hsplit := List.takeWhile_append_dropWhile (p := p) (l := s.rest)
  have hdrop : (s.rest.takeWhile p ++ s.rest.dropWhile p).drop (s.rest.takeWhile p).length =
      s.rest.dropWhile p := List.drop_left
  rw [hsplit] at hdrop
  rw [State.rest_advance, hdrop]

theorem spaces_eq_ok {b : Bool} (h : spaces s = .ok (b, t)) :
    t.rest = s.rest.dropWhile isSpace ∧ b = !(s.rest.takeWhile isSpace).isEmpty := by
  obtain ⟨a, m, htake, h⟩ := bind_eq_ok.mp h
  obtain ⟨rfl, rfl⟩ := pure_eq_ok.mp h
  obtain ⟨rfl, hrest⟩ := rest_takeWhile htake
  exact ⟨hrest, rfl⟩

theorem someSpace_eq_ok {cause : Cause} {u : Unit} (h : someSpace cause s = .ok (u, t)) :
    s.rest.takeWhile isSpace ≠ [] ∧ t.rest = s.rest.dropWhile isSpace := by
  obtain ⟨b, m, hspaces, h⟩ := bind_eq_ok.mp h
  obtain ⟨hrest, hb⟩ := spaces_eq_ok hspaces
  cases b with
  | true =>
      obtain ⟨-, rfl⟩ := pure_eq_ok.mp h
      exact ⟨by simpa using hb, hrest⟩
  | false => exact absurd h fail_eq_ok

theorem of_bind_noNull {f : Unit → Reading β} {b : β} (h : (noNull >>= f) s = .ok (b, t)) :
    f () s = .ok (b, t) := by
  obtain ⟨u, m, hnull, hrest⟩ := bind_eq_ok.mp h
  unfold noNull at hnull
  rw [bind_peek_apply] at hnull
  split at hnull
  · exact absurd hnull fail_eq_ok
  · rw [(pure_eq_ok.mp hnull).2]
    exact hrest

theorem of_ite {c : Prop} [Decidable c] {x y : Reading α} {r : Except Problem (α × State)}
    (h : (if c then x else y) s = r) : c ∧ x s = r ∨ ¬ c ∧ y s = r := by
  split at h
  next hc => exact .inl ⟨hc, h⟩
  next hc => exact .inr ⟨hc, h⟩

theorem cons_of_head? {l : List Char} {c : Char} (h : l.head? = some c) : l = c :: l.drop 1 := by
  cases l with
  | nil => cases h
  | cons d l =>
      cases h
      rfl

section Names

/-- A run of characters that is passed up to one that does not belong to it. -/
structure Ran (p : Char → Bool) (run before after : List Char) : Prop where
  text_eq : before = run ++ after
  all : ∀ c ∈ run, p c = true
  ends : ∀ c, after.head? = some c → p c = false

theorem ran_takeWhile {p : Char → Bool} {a : List Char} (h : takeWhile p s = .ok (a, t)) :
    Ran p a s.rest t.rest := by
  obtain ⟨rfl, hrest⟩ := rest_takeWhile h
  refine ⟨?_, fun c => List.mem_takeWhile_imp, fun c hc => ?_⟩
  · rw [hrest, List.takeWhile_append_dropWhile]
  · rw [hrest] at hc
    have hnot := List.head?_dropWhile_not p s.rest
    rw [hc] at hnot
    exact hnot

theorem ran_nil {p : Char → Bool} {s : List Char} (h : ∀ c, s.head? = some c → p c = false) : Ran p [] s s :=
  ⟨rfl, List.forall_mem_nil _, h⟩

theorem ran_name {n : List Char} (h : name s = .ok (n, t)) :
    s.rest = n ++ t.rest ∧ ∀ c ∈ n, isNameChar c = true := by
  unfold name at h
  rw [bind_peek_apply] at h
  generalize s.rest.head? = first at h
  split at h
  next c =>
    split at h
    next =>
      obtain ⟨n', m, htake, h⟩ := bind_eq_ok.mp h
      have h := of_bind_noNull h
      obtain ⟨rfl, rfl⟩ := pure_eq_ok.mp h
      have hran := ran_takeWhile htake
      exact ⟨hran.text_eq, hran.all⟩
    next =>
      have h := of_bind_noNull h
      obtain ⟨rfl, rfl⟩ := pure_eq_ok.mp h
      exact ⟨rfl, List.forall_mem_nil _⟩
  next =>
    obtain ⟨rfl, rfl⟩ := pure_eq_ok.mp h
    exact ⟨rfl, List.forall_mem_nil _⟩

/-- A name without colons starts at its first character, and what it leaves does not go on with it. -/
theorem ran_localName {n : List Char} (h : localName s = .ok (n, t)) :
    s.rest = n ++ t.rest ∧ (∀ c ∈ n, isLocalChar c = true) ∧
      (∀ c, n.head? = some c → isLocalStart c = true) ∧
      (n ≠ [] → ∀ c, t.rest.head? = some c → isLocalChar c = false) ∧
      (n = [] → ∀ c, t.rest.head? = some c → isLocalStart c = false) := by
  unfold localName at h
  rw [bind_peek_apply] at h
  generalize hhead : s.rest.head? = head at h
  split at h
  next c =>
    split at h
    next hstart =>
      obtain ⟨n', m, htake, h⟩ := bind_eq_ok.mp h
      have h := of_bind_noNull h
      obtain ⟨rfl, rfl⟩ := pure_eq_ok.mp h
      have hran := ran_takeWhile htake
      have hlocal : isLocalChar c = true := by simp [isLocalChar, hstart]
      have hfirst : n'.head? = some c := by
        obtain ⟨hn, -⟩ := rest_takeWhile htake
        cases hrest : s.rest with
        | nil => rw [hrest] at hhead; cases hhead
        | cons d r =>
            rw [hrest] at hhead hn
            cases hhead
            rw [← hn, List.takeWhile_cons_of_pos hlocal]
            rfl
      refine ⟨hran.text_eq, hran.all, fun d hd => ?_, fun _ => hran.ends, fun hnil => ?_⟩
      · rw [hfirst] at hd
        cases hd
        exact hstart
      · rw [hnil] at hfirst
        cases hfirst
    next hstart =>
      have h := of_bind_noNull h
      obtain ⟨rfl, rfl⟩ := pure_eq_ok.mp h
      refine ⟨rfl, List.forall_mem_nil _, fun d hd => (by cases hd), fun hne => absurd rfl hne, fun _ d hd => ?_⟩
      rw [hhead] at hd
      cases hd
      simpa using hstart
  next =>
    obtain ⟨rfl, rfl⟩ := pure_eq_ok.mp h
    refine ⟨rfl, List.forall_mem_nil _, fun d hd => (by cases hd), fun hne => absurd rfl hne, fun _ d hd => ?_⟩
    rw [hhead] at hd
    cases hd

/-- A name with an owner as it is written. -/
def fullName (owner : Option (List Char)) (name : List Char) : List Char :=
  match owner with
  | none => name
  | some owner => owner ++ ':' :: name

theorem isNameChar_of_isLocalChar {c : Char} (h : isLocalChar c = true) : isNameChar c = true := by
  simp [isNameChar, h]

theorem take_of_append {whole run rest : List Char} (h : whole = run ++ rest) :
    whole.take (whole.length - rest.length) = run := by
  rw [h, List.length_append, Nat.add_sub_cancel, List.take_left]

/-- A qualified name is passed as it is written. -/
theorem ran_qualifiedName {owner : Option (List Char)} {name : List Char}
    (h : qualifiedName s = .ok ((owner, name), t)) :
    s.rest = fullName owner name ++ t.rest ∧ (∀ c ∈ fullName owner name, isNameChar c = true) ∧
      (name = [] → fullName owner name = []) ∧
      (name ≠ [] → ∀ c, t.rest.head? = some c → isNameChar c = false) := by
  unfold qualifiedName at h
  rw [bind_remaining_apply] at h
  obtain ⟨first, m, hfirst, h⟩ := bind_eq_ok.mp h
  obtain ⟨hrest, hlocal, -, hends, -⟩ := ran_localName hfirst
  have hname : ∀ c ∈ first, isNameChar c = true := fun c hc => isNameChar_of_isLocalChar (hlocal c hc)
  -- a name that cannot be parted goes on to the end of its characters
  have hmalformed {k : State} {before : List Char} (hk : s.rest = before ++ k.rest)
      (hbefore : ∀ c ∈ before, isNameChar c = true)
      (h : (takeWhile isNameChar >>= fun _ => remaining >>= fun rest =>
        note (.nameMalformed (String.ofList (s.rest.take (s.rest.length - rest.length)))) >>= fun _ =>
          pure (none, s.rest.take (s.rest.length - rest.length))) k = .ok ((owner, name), t)) :
      s.rest = fullName owner name ++ t.rest ∧ (∀ c ∈ fullName owner name, isNameChar c = true) ∧
        (name = [] → fullName owner name = []) ∧
        (name ≠ [] → ∀ c, t.rest.head? = some c → isNameChar c = false) := by
    obtain ⟨run, m₁, htake, h⟩ := bind_eq_ok.mp h
    rw [bind_remaining_apply, bind_note_apply] at h
    obtain ⟨heq, rfl⟩ := pure_eq_ok.mp h
    cases heq
    have hran := ran_takeWhile htake
    have hsplit : s.rest = (before ++ run) ++ m₁.rest := by rw [hk, hran.text_eq, List.append_assoc]
    rw [take_of_append hsplit]
    exact ⟨hsplit, fun c hc => (List.mem_append.mp hc).elim (hbefore c) (hran.all c), fun hnil => hnil,
      fun _ => hran.ends⟩
  cases first with
  | nil =>
      simp only [bind_peek_apply, List.isEmpty_nil, Bool.true_and, Bool.not_true, Bool.false_and,
        Bool.false_eq_true, if_false, if_true] at h
      split at h
      next =>
        obtain ⟨heq, rfl⟩ := pure_eq_ok.mp h
        cases heq
        exact ⟨hrest, List.forall_mem_nil _, fun _ => rfl, fun hne => absurd rfl hne⟩
      next => exact hmalformed hrest (List.forall_mem_nil _) h
  | cons d first =>
      simp only [bind_peek_apply, List.isEmpty_cons, Bool.false_and, Bool.not_false, Bool.true_and,
        Bool.false_eq_true, if_false, if_true, bne_iff_ne, ne_eq] at h
      split at h
      next hcolon =>
        obtain ⟨heq, rfl⟩ := pure_eq_ok.mp h
        cases heq
        refine ⟨hrest, hname, fun hnil => hnil, fun hne c hc => ?_⟩
        have hne' : c ≠ ':' := by
          rintro rfl
          exact hcolon hc
        simp [isNameChar, hne', hends hne c hc]
      next hcolon =>
        have hk : s.rest = (d :: first) ++ ':' :: (m.advance 1).rest := by
          rw [hrest, State.rest_advance, ← cons_of_head? (not_not.mp hcolon)]
        rw [bind_skip_apply] at h
        obtain ⟨second, k, hsecond, h⟩ := bind_eq_ok.mp h
        obtain ⟨hrest', hlocal', -, hends', -⟩ := ran_localName hsecond
        have hwritten : s.rest = ((d :: first) ++ ':' :: second) ++ k.rest := by
          rw [hk, hrest']
          simp
        have hwrittenName : ∀ c ∈ (d :: first) ++ ':' :: second, isNameChar c = true := by
          intro c hc
          obtain hc | hc := List.mem_append.mp hc
          · exact hname c hc
          obtain rfl | hc := List.mem_cons.mp hc
          · decide
          · exact isNameChar_of_isLocalChar (hlocal' c hc)
        rw [bind_peek_apply] at h
        split at h
        next => exact hmalformed hwritten hwrittenName h
        next hfine =>
          obtain ⟨heq, rfl⟩ := pure_eq_ok.mp h
          cases heq
          simp only [Bool.or_eq_true, List.isEmpty_iff, beq_iff_eq, not_or] at hfine
          refine ⟨hwritten, hwrittenName, fun hnil => absurd hnil hfine.1, fun hne c hc => ?_⟩
          have hne' : c ≠ ':' := by
            rintro rfl
            exact hfine.2 hc
          simp [isNameChar, hne', hends' hne c hc]

end Names

/-- A reading that passes nothing of the text. -/
def Keeps (x : Reading α) : Prop := ∀ s a t, x s = .ok (a, t) → t.rest = s.rest

namespace Keeps

theorem pure (a : α) : Keeps (Pure.pure a) := fun s b t h => by rw [(pure_eq_ok.mp h).2]

theorem fail (cause : Cause) : Keeps (Reading.fail cause : Reading α) := fun _ _ _ h => absurd h fail_eq_ok

theorem note (cause : Cause) : Keeps (Reading.note cause) := fun s u t h => by
  cases h
  rfl

theorem state : Keeps (get : Reading State) := fun s a t h => by
  cases h
  rfl

theorem docType : Keeps Reading.docType := fun s a t h => by
  cases h
  rfl

theorem peek : Keeps Reading.peek := fun s a t h => by
  cases h
  rfl

theorem remaining : Keeps Reading.remaining := fun s a t h => by
  cases h
  rfl

theorem declare (f : DocType → DocType) : Keeps (Reading.declare f) := fun s a t h => by
  cases h
  rfl

theorem change {f : State → State} (hf : ∀ s, (f s).rest = s.rest) : Keeps (modify f : Reading PUnit) :=
  fun s a t h => by
    cases h
    exact hf s

theorem bind {x : Reading α} {f : α → Reading β} (hx : Keeps x) (hf : ∀ a, Keeps (f a)) :
    Keeps (x >>= f) := fun s b t h => by
  obtain ⟨a, m, hfirst, hrest⟩ := bind_eq_ok.mp h
  rw [hf a m b t hrest, hx s a m hfirst]

theorem ite {c : Prop} [Decidable c] {x y : Reading α} (hx : Keeps x) (hy : Keeps y) :
    Keeps (if c then x else y) := by
  split <;> assumption

theorem mapM {f : α → Reading β} (hf : ∀ a, Keeps (f a)) (l : List α) : Keeps (l.mapM f) := by
  induction l with
  | nil => exact .pure []
  | cons a l ih =>
      rw [List.mapM_cons]
      exact (hf a).bind fun b => ih.bind fun bs => .pure _

theorem forM {f : α → Reading PUnit} (hf : ∀ a, Keeps (f a)) (l : List α) : Keeps (l.forM f) := by
  induction l with
  | nil => exact .pure _
  | cons a l ih => exact (hf a).bind fun _ => ih

theorem foldlM {f : β → α → Reading β} (hf : ∀ b a, Keeps (f b a)) (l : List α) (b : β) :
    Keeps (l.foldlM f b) := by
  induction l generalizing b with
  | nil => exact .pure b
  | cons a l ih =>
      rw [List.foldlM_cons]
      exact (hf b a).bind ih

end Keeps

end Reading

end MarkupIds.Xml
