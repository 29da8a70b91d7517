import MarkupIds.Proofs.Xml.Again
import MarkupIds.Proofs.Xml.Twin
import MarkupIds.Proofs.Xml.Given

/-! An attribute that is added. A name is read again where something else follows, if the name does not go on there; an
attribute with a name without colons is read without a trace, and one with an escaped value can always be read. -/

namespace MarkupIds.Xml.Reading

/-- No name goes on here. -/
def Stops (r : List Char) : Prop := ∃ c, r.head? = some c ∧ isNameChar c = false ∧ c ≠ '\x00'

/-- The next character is the same, or no name goes on in either text. -/
def AtStop (r r' : List Char) : Prop := Next r r' ∨ Stops r ∧ Stops r'

instance : IsAhead AtStop := ⟨fun _ => .inl (.inl rfl), fun q r r' h => by
  obtain h | h := h
  · exact .inl (h.append q)
  · cases q with
    | nil => exact .inr h
    | cons c q => exact .inl (.of_mem trivial List.mem_cons_self r r')⟩

namespace AtStop

variable {r r' : List Char}

theorem noneNext {f : Char → Bool} (hf : ∀ c, f c = true → isNameChar c = true) (h : AtStop r r')
    (hnone : Steady.NoneNext f r) : Steady.NoneNext f r' := by
  intro c hc
  obtain hnext | ⟨-, d, hd, hname, -⟩ := h
  · exact hnone c (hnext.head?_eq ▸ hc)
  · obtain rfl := Option.some.inj (hd.symm.trans hc)
    by_contra hchar
    rw [hf d (Bool.not_eq_false _ ▸ hchar)] at hname
    cases hname

theorem eq_nil (h : AtStop [] r') : r' = [] := by
  obtain hnext | ⟨⟨c, hc, -⟩, -⟩ := h
  · exact List.head?_eq_none_iff.mp hnext.head?_eq
  · cases hc

theorem colon_eq (h : AtStop r r') : (r'.head? == some ':') = (r.head? == some ':') := by
  obtain hnext | ⟨⟨c, hc, hname, -⟩, d, hd, hname', -⟩ := h
  · rw [hnext.head?_eq]
  · have hcolon {c : Char} (hname : isNameChar c = false) : (some c == some ':') = false := by
      rw [beq_eq_false_iff_ne]
      rintro ⟨⟩
      exact absurd hname (by decide)
    rw [hc, hd, hcolon hname, hcolon hname']

theorem not_null (h : AtStop r r') (hr : r.head? ≠ some '\x00') : r'.head? ≠ some '\x00' := by
  obtain hnext | ⟨-, d, hd, -, hnull⟩ := h
  · rw [hnext.head?_eq]
    exact hr
  · rw [hd]
    exact fun heq => hnull (Option.some.inj heq)

end AtStop

section Names

variable {α : Type} {s t : State} {n : List Char}

theorem bind_noNull_eq_ok {f : Unit → Reading α} {a : α} :
    (noNull >>= f) s = .ok (a, t) ↔ s.rest.head? ≠ some '\x00' ∧ f () s = .ok (a, t) := by
  constructor
  · intro h
    refine ⟨fun hnull => ?_, of_bind_noNull h⟩
    obtain ⟨u, m, hfail, -⟩ := bind_eq_ok.mp h
    unfold noNull at hfail
    rw [bind_peek_apply, hnull] at hfail
    exact absurd hfail fail_eq_ok
  · rintro ⟨hnull, h⟩
    refine bind_eq_ok.mpr ⟨(), s, ?_, h⟩
    unfold noNull
    rw [bind_peek_apply, if_neg (by simpa using hnull)]
    rfl

theorem localName_not_null (h : localName s = .ok (n, t)) : t.rest.head? ≠ some '\x00' := by
  unfold localName at h
  rw [bind_peek_apply] at h
  generalize hhead : s.rest.head? = head at h
  cases head with
  | none =>
      obtain ⟨-, rfl⟩ := pure_eq_ok.mp h
      rw [hhead]
      exact fun heq => nomatch heq
  | some c =>
      obtain ⟨-, h⟩ | ⟨-, h⟩ := of_ite h
      · obtain ⟨run, m, -, h⟩ := bind_eq_ok.mp h
        obtain ⟨hnull, h⟩ := bind_noNull_eq_ok.mp h
        obtain ⟨-, rfl⟩ := pure_eq_ok.mp h
        exact hnull
      · obtain ⟨hnull, h⟩ := bind_noNull_eq_ok.mp h
        obtain ⟨-, rfl⟩ := pure_eq_ok.mp h
        exact hnull

/-- A name without colons is read where it does not go on. -/
theorem localName_of {r : List Char} (hs : s.rest = n ++ r) (hall : ∀ c ∈ n, isLocalChar c = true)
    (hstart : ∀ c, n.head? = some c → isLocalStart c = true) (hends : n ≠ [] → Steady.NoneNext isLocalChar r)
    (hnone : n = [] → Steady.NoneNext isLocalStart r) (hnull : r.head? ≠ some '\x00') :
    localName s = .ok (n, s.advance n.length) := by
  unfold localName
  rw [bind_peek_apply]
  cases n with
  | nil =>
      rw [List.nil_append] at hs
      rw [hs]
      cases hhead : r.head? with
      | none => rfl
      | some c =>
          dsimp only
          rw [if_neg (by rw [hnone rfl c hhead]; exact Bool.false_ne_true)]
          exact bind_noNull_eq_ok.mpr ⟨hs ▸ hnull, rfl⟩
  | cons c n =>
      have htake : s.rest.takeWhile isLocalChar = c :: n := by
        rw [hs, List.takeWhile_append_of_pos hall]
        cases r with
        | nil => exact List.append_nil _
        | cons d r =>
            rw [List.takeWhile_cons_of_neg (by rw [hends (List.cons_ne_nil _ _) d rfl]; exact Bool.false_ne_true),
              List.append_nil]
      have hhead : s.rest.head? = some c := by rw [hs]; rfl
      rw [hhead]
      dsimp only
      rw [if_pos (hstart c rfl)]
      refine bind_eq_ok.mpr ⟨c :: n, _, takeWhile_eq_ok.mpr ⟨htake, by rw [htake]⟩, bind_noNull_eq_ok.mpr ⟨?_, rfl⟩⟩
      rw [State.rest_advance, hs, List.drop_left]
      exact hnull

theorem isNameChar_of_isLocalStart {c : Char} (h : isLocalStart c = true) : isNameChar c = true :=
  isNameChar_of_isLocalChar (by simp [isLocalChar, h])

theorem Steady.localName_atStop : Steady AtStop Reading.localName := fun s n t hs h => by
  obtain ⟨hrest, hall, hstart, hends, hnone⟩ := ran_localName h
  refine ⟨n, hrest, fun _ s' r' _ hs' hr' hlike => ?_⟩
  refine ⟨_, localName_of hs' hall hstart (fun hne => ?_) (fun hnil => ?_) ?_, ?_, ?_⟩
  · exact hr'.noneNext (fun c => isNameChar_of_isLocalChar) (hends hne)
  · exact hr'.noneNext (fun c => isNameChar_of_isLocalStart) (hnone hnil)
  · exact hr'.not_null (localName_not_null h)
  · rw [State.rest_advance, hs', List.drop_left]
  · have hcalm := Calm.localName s n t hs h
    exact hcalm.symm.trans (hlike.trans ((Like.refl hlike.symm.undeclared).advance 0 _))

/-- The name of a tag is read again where something else follows that no name goes on with. -/
theorem Steady.qualifiedName_atStop : Steady AtStop Reading.qualifiedName := by
  rw [qualifiedName_eq]
  have hcolon : ∀ r r', AtStop r r' → (r'.head? == some ':') = (r.head? == some ':') := fun _ _ => AtStop.colon_eq
  have hmalformed (before : List Char) : Steady AtStop (nameParts.malformed before) :=
    (takeWhile_of fun _ _ h => h.noneNext fun _ hc => hc).bind fun _ => (note _).bind fun _ => .pure _
  refine localName_atStop.bind fun first => ?_
  refine peek_bind hcolon (g := fun b => if !b then Pure.pure (none, first) else _) (fun _ => rfl) fun b => ?_
  refine (Steady.pure _).ite ((hmalformed []).ite ((skip_of (fun _ h => h.eq_nil) 1).bind fun _ => ?_))
  refine localName_atStop.bind fun second => ?_
  refine peek_bind hcolon (g := fun b => if second.isEmpty || b then _ else _) (fun _ => rfl) fun b => ?_
  exact (hmalformed _).ite (.pure _)

end Names

open MarkupIds.Markup (escape)

variable {s t : State}

section Quiet

/-- A name without colons has one part, and is read without a note. -/
theorem qualifiedName_plain (hs : Undeclared s.docType) {owner : Option (List Char)} {name : List Char}
    (h : qualifiedName s = .ok ((owner, name), t)) (hcolon : ':' ∉ fullName owner name) : owner = none ∧ Like s t := by
  rw [qualifiedName_eq] at h
  have hmalformed {k : State} {before : List Char} (hk : ':' ∈ before ∨ k.rest.head? = some ':') :
      ¬ nameParts.malformed before k = .ok ((owner, name), t) := by
    intro h
    obtain ⟨more, m, hmore, h⟩ := bind_eq_ok.mp h
    rw [bind_note_apply] at h
    obtain ⟨hpair, -⟩ := pure_eq_ok.mp h
    cases hpair
    refine hcolon (List.mem_append.mpr ?_)
    obtain hbefore | hhead := hk
    · exact .inl hbefore
    · obtain ⟨rfl, -⟩ := rest_takeWhile hmore
      right
      rw [cons_of_head? hhead, List.takeWhile_cons_of_pos (by decide)]
      exact List.mem_cons_self
  unfold nameParts at h
  obtain ⟨first, m, hfirst, h⟩ := bind_eq_ok.mp h
  rw [bind_peek_apply] at h
  obtain ⟨-, h⟩ | ⟨hcolon', h⟩ := of_ite h
  · obtain ⟨hpair, rfl⟩ := pure_eq_ok.mp h
    cases hpair
    exact ⟨rfl, Calm.localName _ _ _ hs hfirst⟩
  obtain ⟨-, h⟩ | ⟨-, h⟩ := of_ite h
  · exact absurd h (hmalformed (.inr (by simpa using hcolon')))
  rw [bind_skip_apply] at h
  obtain ⟨second, m', hsecond, h⟩ := bind_eq_ok.mp h
  rw [bind_peek_apply] at h
  obtain ⟨-, h⟩ | ⟨-, h⟩ := of_ite h
  · exact absurd h (hmalformed (.inl (by simp)))
  · obtain ⟨hpair, -⟩ := pure_eq_ok.mp h
    cases hpair
    exact absurd (List.mem_append_right first List.mem_cons_self) hcolon

/-- What the reading of an attribute goes through where none is declared. -/
theorem given_iff {g : Given} : given [] s = .ok (g, t) ↔ ∃ m m₁ m₂ m₃ m₄ b b',
    qualifiedName s = .ok ((g.owner, g.name), m) ∧ g.name ≠ [] ∧ spaces m = .ok (b, m₁) ∧
      expect ['='] (.attributeWithoutValue (String.ofList g.name)) m₁ = .ok ((), m₂) ∧ spaces m₂ = .ok (b', m₃) ∧
        value m₃ = .ok (g.value, m₄) ∧ checkSpace g m₄ = .ok ((), t) := by
  unfold given
  constructor
  · intro h
    obtain ⟨⟨owner, name⟩, m, hname, h⟩ := bind_eq_ok.mp h
    dsimp only at h
    split at h
    next => exact absurd h fail_eq_ok
    next hne =>
      obtain ⟨b, m₁, hspaces, h⟩ := bind_eq_ok.mp h
      obtain ⟨u, m₂, hequals, h⟩ := bind_eq_ok.mp h
      obtain ⟨b', m₃, hspaces', h⟩ := bind_eq_ok.mp h
      obtain ⟨v, m₄, hvalue, h⟩ := bind_eq_ok.mp h
      obtain ⟨u', m₅, hcheck, h⟩ := bind_eq_ok.mp h
      obtain ⟨rfl, rfl⟩ := pure_eq_ok.mp h
      exact ⟨m, m₁, m₂, m₃, m₄, b, b', hname, by simpa using hne, hspaces, hequals, hspaces', hvalue, hcheck⟩
  · rintro ⟨m, m₁, m₂, m₃, m₄, b, b', hname, hne, hspaces, hequals, hspaces', hvalue, hcheck⟩
    refine bind_eq_ok.mpr ⟨_, m, hname, ?_⟩
    dsimp only
    rw [if_neg (by simpa using hne)]
    refine bind_eq_ok.mpr ⟨b, m₁, hspaces, bind_eq_ok.mpr ⟨(), m₂, hequals, bind_eq_ok.mpr ⟨b', m₃, hspaces', ?_⟩⟩⟩
    exact bind_eq_ok.mpr ⟨g.value, m₄, hvalue, bind_eq_ok.mpr ⟨(), t, hcheck, rfl⟩⟩

theorem given_plain (hs : Undeclared s.docType) {g : Given} (h : given [] s = .ok (g, t)) (hcolon : ':' ∉ g.fullName) :
    g.owner = none ∧ Like s t := by
  obtain ⟨m, m₁, m₂, m₃, m₄, b, b', hname, -, hspaces, hequals, hspaces', hvalue, hcheck⟩ := given_iff.mp h
  obtain ⟨howner, hlike⟩ := qualifiedName_plain hs hname hcolon
  refine ⟨howner, ?_⟩
  have h₁ := hlike.trans (Calm.spaces _ _ _ hlike.symm.undeclared hspaces)
  have h₂ := h₁.trans (Calm.expect _ _ _ _ _ h₁.symm.undeclared hequals)
  have h₃ := h₂.trans (Calm.spaces _ _ _ h₂.symm.undeclared hspaces')
  have h₄ := h₃.trans (Calm.value _ _ _ h₃.symm.undeclared hvalue)
  have hxml : (g.fullName == "xml:space".toList) = false := by
    rw [beq_eq_false_iff_ne]
    exact fun heq => hcolon (heq ▸ by decide)
  unfold checkSpace at hcheck
  rw [hxml, if_neg Bool.false_ne_true] at hcheck
  obtain ⟨-, rfl⟩ := pure_eq_ok.mp hcheck
  exact h₄

end Quiet

section Escaped

/-- A reference by a name is read up to its semicolon. -/
theorem exists_entityReference {c : Char} {n r : List Char} (hs : s.rest = '&' :: (c :: n ++ ';' :: r))
    (hc : isNameStart c = true) (hn : (c :: n).all isNameChar = true) :
    ∃ t, entityReference s = .ok (c :: n, t) ∧ t.rest = r := by
  have hrest : (s.advance 1).rest = c :: n ++ ';' :: r := by
    rw [State.rest_advance, hs]
    rfl
  have htake : (s.advance 1).rest.takeWhile isNameChar = c :: n := by
    rw [hrest, List.takeWhile_append_of_pos (List.all_eq_true.mp hn), List.takeWhile_cons_of_neg (by decide),
      List.append_nil]
  have hbehind : ((s.advance 1).advance (c :: n).length).rest = ';' :: r := by
    rw [State.rest_advance, hrest, List.drop_left]
  have hname : name (s.advance 1) = .ok (c :: n, (s.advance 1).advance (c :: n).length) := by
    unfold name
    rw [bind_peek_apply, hrest]
    dsimp only [List.cons_append, List.head?_cons]
    rw [if_pos hc]
    refine bind_eq_ok.mpr ⟨c :: n, _, takeWhile_eq_ok.mpr ⟨htake, by rw [htake]⟩, bind_noNull_eq_ok.mpr ⟨?_, rfl⟩⟩
    rw [hbehind]
    exact fun heq => absurd (Option.some.inj heq) (by decide)
  refine ⟨((s.advance 1).advance (c :: n).length).advance 1, ?_, ?_⟩
  · unfold entityReference
    rw [bind_skip_apply]
    refine bind_eq_ok.mpr ⟨c :: n, _, hname, ?_⟩
    dsimp only
    rw [if_neg (by simp)]
    refine bind_eq_ok.mpr ⟨(), _, bind_eq_ok.mpr ⟨true, _, accept_eq_ok.mpr ⟨?_, rfl⟩, rfl⟩, rfl⟩
    rw [hbehind]
    rfl
  · rw [State.rest_advance, hbehind]
    rfl

/-- The reference to a character that is escaped is read as that character, whatever is declared. -/
theorem valueReference_escaped {c : Char} {r : List Char} (hc : c = '&' ∨ c = '<' ∨ c = '>' ∨ c = '"')
    (hrest : s.rest = Markup.escapeChar c ++ r) : ∃ t, valueReference s = .ok ([c], t) ∧ t.rest = r := by
  have hnamed {d : Char} {n : List Char} (hplain : plainEntity? (d :: n) = some c) (hd : isNameStart d = true)
      (hn : (d :: n).all isNameChar = true) (hrest : s.rest = '&' :: (d :: n ++ ';' :: r)) :
      ∃ t, valueReference s = .ok ([c], t) ∧ t.rest = r := by
    obtain ⟨t, ht, hbehind⟩ := exists_entityReference hrest hd hn
    refine ⟨t, valueReference_of_refersTo hrest (.inr ⟨?_, d :: n, ht, hplain⟩), hbehind⟩
    rw [hrest]
    intro hhash
    obtain rfl := Option.some.inj hhash
    exact absurd hd (by decide)
  obtain rfl | rfl | rfl | rfl := hc
  · exact hnamed (n := ['m', 'p']) rfl (by decide) (by decide) hrest
  · exact hnamed (n := ['t']) rfl (by decide) (by decide) hrest
  · exact hnamed (n := ['t']) rfl (by decide) (by decide) hrest
  · exact hnamed (n := ['u', 'o', 't']) rfl (by decide) (by decide) hrest

theorem le_length_escape_append (x r : List Char) : x.length ≤ (escape x ++ '"' :: r).length := by
  have hle : x.length ≤ (escape x).length := by
    induction x with
    | nil => exact Nat.zero_le _
    | cons c x ih =>
        have hpos : 0 < (Markup.escapeChar c).length := by
          unfold Markup.escapeChar
          split <;> exact Nat.succ_pos _
        rw [escape, List.flatMap_cons, List.length_append, List.length_cons]
        rw [escape] at ih
        omega
  rw [List.length_append]
  exact Nat.le_trans hle (Nat.le_add_right _ _)

/-- An escaped text is read as the text itself, but for other white space than spaces. -/
theorem valueEnd_escape {x r : List Char} (hx : ∀ c ∈ x, isXmlChar c = true)
    (hrest : s.rest = escape x ++ '"' :: r) {fuel : Nat} (hfuel : x.length < fuel) :
    ∃ t, valueEnd '"' fuel s = .ok (x.map valueChar, t) ∧ t.rest = r := by
  induction x generalizing s fuel with
  | nil =>
      obtain ⟨fuel, rfl⟩ : ∃ k, fuel = k + 1 := ⟨fuel - 1, by simp at hfuel; omega⟩
      exact ⟨_, valueEnd_quote hrest, by rw [State.rest_advance, hrest]; rfl⟩
  | cons c x ih =>
      obtain ⟨fuel, rfl⟩ : ∃ k, fuel = k + 1 := ⟨fuel - 1, by simp at hfuel; omega⟩
      obtain ⟨hc, hx⟩ := List.forall_mem_cons.mp hx
      have hsplit : s.rest = Markup.escapeChar c ++ (escape x ++ '"' :: r) := by
        rw [hrest, escape, List.flatMap_cons, List.append_assoc]
        rfl
      by_cases hmark : c = '&' ∨ c = '<' ∨ c = '>' ∨ c = '"'
      · obtain ⟨m, hm, hrest⟩ := valueReference_escaped hmark hsplit
        have hamp : s.rest.head? = some '&' := by
          rw [hsplit]
          obtain rfl | rfl | rfl | rfl := hmark <;> rfl
        have hself : valueChar c = c := by obtain rfl | rfl | rfl | rfl := hmark <;> rfl
        obtain ⟨t, hv, ht⟩ := ih hx hrest (Nat.lt_of_succ_lt_succ hfuel)
        refine ⟨t, ?_, ht⟩
        rw [valueEnd_reference (by decide) hamp, List.map_cons, hself]
        exact bind_eq_ok.mpr ⟨[c], m, hm, bind_eq_ok.mpr ⟨x.map valueChar, t, hv, rfl⟩⟩
      · simp only [not_or] at hmark
        obtain ⟨hamp, hopen, hclose, hquote⟩ := hmark
        have hself : Markup.escapeChar c = [c] := by
          unfold Markup.escapeChar
          split
          next => exact absurd rfl hamp
          next => exact absurd rfl hopen
          next => exact absurd rfl hclose
          next => exact absurd rfl hquote
          next => rfl
        rw [hself] at hsplit
        obtain ⟨t, hv, ht⟩ := ih (s := s.advance 1) hx (by rw [State.rest_advance, hsplit]; rfl)
          (Nat.lt_of_succ_lt_succ hfuel)
        refine ⟨t, ?_, ht⟩
        rw [valueEnd_char hquote hopen hamp hc hsplit]
        exact bind_eq_ok.mpr ⟨x.map valueChar, t, hv, rfl⟩

end Escaped

theorem spaces_none {c : Char} {r : List Char} (hs : s.rest = c :: r) (hc : isSpace c = false) :
    spaces s = .ok (false, s) := by
  have htake : s.rest.takeWhile isSpace = [] := by rw [hs, List.takeWhile_cons_of_neg (by rw [hc]; exact Bool.false_ne_true)]
  exact bind_eq_ok.mpr ⟨[], s, takeWhile_eq_ok.mpr ⟨htake, by rw [htake]; rfl⟩, rfl⟩

theorem not_colon_of_isLocalName {n : List Char} (h : isLocalName n = true) : ':' ∉ n := by
  intro hmem
  cases n with
  | nil => cases hmem
  | cons c n =>
      obtain ⟨hc, hn⟩ := Bool.and_eq_true_iff.mp h
      obtain rfl | hmem := List.mem_cons.mp hmem
      · exact absurd hc (by decide)
      · exact absurd (List.all_eq_true.mp hn _ hmem) (by decide)

/-- A name without colons is read up to the equals sign. -/
theorem qualifiedName_local {attr r : List Char} (hattr : isLocalName attr = true) (hs : s.rest = attr ++ '=' :: r) :
    qualifiedName s = .ok ((none, attr), s.advance attr.length) := by
  obtain ⟨c, n, rfl, hc, hn⟩ : ∃ c n, attr = c :: n ∧ isLocalStart c = true ∧ ∀ d ∈ n, isLocalChar d = true := by
    cases attr with
    | nil => cases hattr
    | cons c n =>
        obtain ⟨hc, hn⟩ := Bool.and_eq_true_iff.mp hattr
        exact ⟨c, n, rfl, hc, List.all_eq_true.mp hn⟩
  rw [qualifiedName_eq]
  unfold nameParts
  refine bind_eq_ok.mpr ⟨c :: n, _, localName_of hs ?_ ?_ ?_ ?_ ?_, ?_⟩
  · exact List.forall_mem_cons.mpr ⟨by simp [isLocalChar, hc], hn⟩
  · rintro d ⟨⟩
    exact hc
  · rintro - d ⟨⟩
    decide
  · exact fun hnil => absurd hnil (List.cons_ne_nil _ _)
  · exact fun heq => absurd (Option.some.inj heq) (by decide)
  · rw [bind_peek_apply, State.rest_advance, hs, List.drop_left]
    rfl

/-- An attribute that is put in is read, and leaves no trace. -/
theorem given_added (hs : Undeclared s.docType) {attr x r : List Char} (hattr : isLocalName attr = true)
    (hx : ∀ c ∈ x, isXmlChar c = true) (hrest : ' ' :: s.rest = (WrittenAttribute.added attr x).text ++ r) :
    ∃ g t, given [] s = .ok (g, t) ∧ g.owner = none ∧ g.name = attr ∧ t.rest = r ∧ Like s t := by
  have htext : s.rest = attr ++ '=' :: '"' :: (escape x ++ '"' :: r) := by
    have hcons : ' ' :: s.rest = ' ' :: (attr ++ '=' :: '"' :: (escape x ++ '"' :: r)) := by
      rw [hrest]
      simp [WrittenAttribute.added, WrittenAttribute.text]
    exact (List.cons.inj hcons).2
  have hm : (s.advance attr.length).rest = '=' :: '"' :: (escape x ++ '"' :: r) := by
    rw [State.rest_advance, htext, List.drop_left]
  have hm' : ((s.advance attr.length).advance 1).rest = '"' :: (escape x ++ '"' :: r) := by
    rw [State.rest_advance, hm]
    rfl
  have hname := qualifiedName_local hattr htext
  obtain ⟨t, hv, ht⟩ := valueEnd_escape (s := ((s.advance attr.length).advance 1).advance 1) hx
    (by rw [State.rest_advance, hm']; rfl) (Nat.lt_succ_of_le (le_length_escape_append x r))
  have hgiven : given [] s = .ok (⟨none, attr, x.map valueChar⟩, t) := by
    refine given_iff.mpr ⟨_, _, _, _, t, false, false, hname, ?_, spaces_none hm (by decide), ?_,
      spaces_none hm' (by decide), value_iff.mpr ⟨'"', _, .inl rfl, hm', hv⟩, ?_⟩
    · rintro rfl
      cases hattr
    · refine bind_eq_ok.mpr ⟨true, _, accept_eq_ok.mpr ⟨?_, rfl⟩, rfl⟩
      rw [hm]
      rfl
    · have hxml : (({ owner := none, name := attr, value := x.map valueChar } : Given).fullName == "xml:space".toList) = false := by
        rw [beq_eq_false_iff_ne]
        exact fun heq => not_colon_of_isLocalName hattr (by
          rw [show attr = "xml:space".toList from heq]
          decide)
      unfold checkSpace
      rw [hxml]
      rfl
  exact ⟨_, t, hgiven, rfl, rfl, ht, (given_plain hs hgiven (not_colon_of_isLocalName hattr)).2⟩

end MarkupIds.Xml.Reading
