import MarkupIds.Proofs.Xml.Added
import MarkupIds.Proofs.Xml.WrittenTag
import MarkupIds.Proofs.Xml.Undeclared

/-! The attributes of a tag, read in another tag: some of them may be missing there, if their names have no colon, and
others may stand behind them. The reading of a start tag where nothing is declared is taken apart for this: what is read
one after another, and that nothing else is asked for. -/

namespace MarkupIds.Xml

namespace Reading

namespace GivenRun

variable {rules : List AttributeRule} {s u : State} {bound bound' : Scope} {attributes : List WrittenAttribute}
  {gs : List Given}

theorem append {v : State} {bound'' : Scope} {more : List WrittenAttribute} {hs : List Given}
    (h : GivenRun rules s bound attributes gs u bound') (h' : GivenRun rules u bound' more hs v bound'') :
    GivenRun rules s bound (attributes ++ more) (gs ++ hs) v bound'' := by
  induction h with
  | nil => exact h'
  | cons proper blank name text read binds _ ih => exact .cons proper blank name text read binds (ih h')

end GivenRun

section Forward

variable {s : State}

theorem atTagEnd_close {close z : List Char} (hclose : close = ['>'] ∨ close = ['/', '>']) (hs : s.rest = close ++ z) :
    atTagEnd s = .ok (true, s) := by
  unfold atTagEnd
  rw [bind_remaining_apply, hs]
  obtain rfl | rfl := hclose <;> rfl

theorem atTagEnd_name {c : Char} (hc : isNameChar c = true) (hs : s.rest.head? = some c) :
    atTagEnd s = .ok (false, s) := by
  have hne {d : Char} (hd : isNameChar d = false) : c ≠ d := by
    rintro rfl
    rw [hc] at hd
    cases hd
  unfold atTagEnd
  rw [bind_remaining_apply]
  generalize s.rest = rest at hs
  split
  next => cases hs
  next => exact absurd (Option.some.inj hs).symm (hne (by decide))
  next => exact absurd (Option.some.inj hs).symm (hne (by decide))
  next =>
    obtain rfl := Option.some.inj hs
    rw [isControl_of_isNameChar hc]
    rfl

theorem isSpace_of_isNameChar {c : Char} (h : isNameChar c = true) : isSpace c = false := by
  by_contra hspace
  rw [Bool.not_eq_false] at hspace
  simp only [isSpace, Bool.or_eq_true, beq_iff_eq] at hspace
  obtain ((rfl | rfl) | rfl) | rfl := hspace <;> exact absurd h (by decide)

/-- Attributes that are read one after another are those of the tag. -/
theorem GivenRun.givens {rules : List AttributeRule} {k u : State} {bound bound' : Scope}
    {attributes : List WrittenAttribute} {gs : List Given} (h : GivenRun rules k bound attributes gs u bound')
    {blanks close z : List Char} (hu : u.rest = blanks ++ (close ++ z)) (hclose : close = ['>'] ∨ close = ['/', '>'])
    (hblanks : ∀ c ∈ blanks, isSpace c = true) {fuel : Nat} (hfuel : attributes.length < fuel) {b : Bool}
    (hspaces : spaces k = .ok (b, s)) : givens rules fuel bound s = .ok ((gs, bound'), u.advance blanks.length) := by
  have hends : ∀ c, (close ++ z).head? = some c → isSpace c = false := by
    intro c hc
    obtain rfl | rfl := hclose
    · cases hc
      decide
    · cases hc
      decide
  induction h generalizing fuel b s with
  | nil k bound =>
      obtain ⟨fuel, rfl⟩ : ∃ n, fuel = n + 1 := ⟨fuel - 1, by simp at hfuel; omega⟩
      have hs := advance_of_spaces hspaces
      rw [hu, Text.takeWhile_append_eq hblanks hends] at hs
      have hrest : s.rest = close ++ z := by rw [hs, State.rest_advance, hu, List.drop_left]
      rw [givens, ← hs]
      exact bind_eq_ok.mpr ⟨true, s, atTagEnd_close hclose hrest, rfl⟩
  | @cons k m t u bound bound' bound'' a g attributes gs proper blank name text read binds more ih =>
      obtain ⟨fuel, rfl⟩ : ∃ n, fuel = n + 1 := ⟨fuel - 1, by simp at hfuel; omega⟩
      obtain ⟨⟨c, hhead, hchar⟩, -⟩ := given_eq_ok read
      have hlead : k.rest = a.lead ++ (k.advance a.lead.length).rest := by
        rw [State.rest_advance, text, WrittenAttribute.text]
        simp
      have hs := advance_of_spaces hspaces
      rw [hlead, Text.takeWhile_append_eq blank fun d hd => by
        rw [hhead] at hd
        cases hd
        exact isSpace_of_isNameChar hchar] at hs
      rw [givens]
      refine bind_eq_ok.mpr ⟨false, s, atTagEnd_name hchar (hs ▸ hhead), ?_⟩
      rw [if_neg Bool.false_ne_true]
      refine bind_eq_ok.mpr ⟨g, m, hs ▸ read, bind_eq_ok.mpr ⟨bound', t, binds, ?_⟩⟩
      rw [bind_remaining_apply]
      by_cases hlast : attributes = [] ∧ blanks = []
      · obtain ⟨rfl, rfl⟩ := hlast
        cases more
        rw [hu]
        obtain rfl | rfl := hclose <;> rfl
      · -- white space comes next, of the next attribute or of the end
        obtain ⟨d, r, hd, hspace⟩ : ∃ d r, t.rest = d :: r ∧ isSpace d = true := by
          cases attributes with
          | nil =>
              cases more
              cases blanks with
              | nil => exact absurd ⟨rfl, rfl⟩ hlast
              | cons d blanks => exact ⟨d, _, hu, hblanks d List.mem_cons_self⟩
          | cons a' attributes =>
              cases more with
              | cons proper' blank' _ text' _ _ _ =>
                  cases hlead' : a'.lead with
                  | nil => exact absurd hlead' proper'.lead_ne
                  | cons d lead =>
                      obtain ⟨r, hr⟩ : ∃ r, a'.text = d :: r := ⟨_, by rw [WrittenAttribute.text, hlead']; rfl⟩
                      exact ⟨d, _, by rw [text', hr]; rfl, blank' d (hlead' ▸ List.mem_cons_self)⟩
        obtain ⟨b', s', hspaces'⟩ : ∃ b' s', spaces t = .ok (b', s') := ⟨_, _, rfl⟩
        have hb' : b' = true := by
          obtain ⟨-, hb'⟩ := spaces_eq_ok hspaces'
          rw [hb', hd, List.takeWhile_cons_of_pos hspace]
          rfl
        have hmore := ih hu (Nat.lt_of_succ_lt_succ hfuel) hspaces'
        have hstep : (someSpace .attributeSpace >>= fun _ => Reading.givens rules fuel bound' >>= fun found =>
            pure (g :: found.1, found.2)) t = .ok ((g :: gs, bound''), u.advance blanks.length) := by
          refine bind_eq_ok.mpr ⟨(), s', bind_eq_ok.mpr ⟨b', s', hspaces', ?_⟩, bind_eq_ok.mpr ⟨_, _, hmore, rfl⟩⟩
          rw [hb']
          rfl
        generalize hrest : t.rest = rest
        rw [hd] at hrest
        split
        next =>
          cases hrest
          exact absurd hspace (by decide)
        next =>
          cases hrest
          exact absurd hspace (by decide)
        next => exact hstep

end Forward

section Transport

variable {attr : List Char}

/-- Attributes whose names have no colon and bind nothing may be left out. -/
theorem GivenRun.filter {s u : State} {bound bound' : Scope} {attributes : List WrittenAttribute} {gs : List Given}
    (h : GivenRun [] s bound attributes gs u bound') {keep : List Char → Bool}
    (hkeep : ∀ n, keep n = false → ':' ∉ n ∧ n ≠ "xmlns".toList) {s' : State} {r : List Char} (hlike : Like s s')
    (hs' : s'.rest = (attributes.filter fun a => keep a.name).flatMap WrittenAttribute.text ++ r) :
    ∃ u', GivenRun [] s' bound (attributes.filter fun a => keep a.name) (gs.filter fun g => keep g.fullName) u' bound' ∧
      u'.rest = r ∧ Like u u' := by
  induction h generalizing s' with
  | nil s bound => exact ⟨s', .nil _ _, hs', hlike⟩
  | @cons s m t u bound bound' bound'' a g attributes gs proper blank name text read binds more ih =>
      have hmrest : m.rest = t.rest := (Keeps.bindGiven _ _ _ _ _ binds).symm
      have hm₀ := hlike.advance a.lead.length a.lead.length
      cases hname : keep a.name with
      | true =>
          have hfilter : ((a :: attributes).filter fun a => keep a.name) = a :: attributes.filter fun a => keep a.name :=
            List.filter_cons_of_pos hname
          have hfilter' : ((g :: gs).filter fun g => keep g.fullName) = g :: gs.filter fun g => keep g.fullName :=
            List.filter_cons_of_pos (name ▸ hname)
          rw [hfilter, List.flatMap_cons, List.append_assoc] at hs'
          rw [hfilter, hfilter']
          obtain ⟨q, hq, hagain⟩ := (Takes.given [] _ _ _ hm₀.undeclared read).1
          obtain ⟨bare, hbare⟩ : ∃ bare, a.text = a.lead ++ bare :=
            ⟨a.name ++ a.link ++ a.quote :: (a.value ++ [a.quote]), by simp [WrittenAttribute.text]⟩
          obtain rfl : bare = q := by
            rw [State.rest_advance, text, hbare, List.append_assoc, List.drop_left, hmrest] at hq
            exact List.append_cancel_right hq
          obtain ⟨m', hread', hmrest', hmlike⟩ := hagain (bare.length + 1) (s'.advance a.lead.length) _ (Nat.lt_succ_self _)
            (by rw [State.rest_advance, hs', hbare, List.append_assoc, List.drop_left]) trivial hm₀
          obtain ⟨q', hq', hagain'⟩ := (Steady.bindGiven bound g : Steady Whatever _) _ _ _ hmlike.undeclared binds
          obtain rfl : q' = [] := by
            rw [hmrest] at hq'
            exact List.append_cancel_right ((List.nil_append _).trans hq').symm
          obtain ⟨t', hbinds', htrest', htlike⟩ := hagain' 1 m' _ Nat.one_pos hmrest' trivial hmlike
          obtain ⟨u', hmore', hurest', hulike⟩ := ih htlike htrest'
          refine ⟨u', .cons proper blank name ?_ hread' hbinds' hmore', hurest', hulike⟩
          rw [hs', htrest']
          rfl
      | false =>
          have hfilter : ((a :: attributes).filter fun a => keep a.name) = attributes.filter fun a => keep a.name :=
            List.filter_cons_of_neg (by rw [hname]; exact Bool.false_ne_true)
          have hfilter' : ((g :: gs).filter fun g => keep g.fullName) = gs.filter fun g => keep g.fullName :=
            List.filter_cons_of_neg (by rw [← name, hname]; exact Bool.false_ne_true)
          rw [hfilter] at hs'
          rw [hfilter, hfilter']
          obtain ⟨hcolon, hxmlns⟩ := hkeep a.name hname
          obtain ⟨howner, hread⟩ := given_plain hm₀.undeclared read (name ▸ hcolon)
          have hnone : g.binds? = none := by
            unfold Given.fullName at name
            unfold Given.binds?
            rw [howner] at name ⊢
            dsimp only at name ⊢
            rw [← name, if_neg (by simpa using hxmlns)]
          have hquiet : bindGiven bound g m = .ok (bound, m) := by
            unfold bindGiven
            rw [hnone]
            rfl
          obtain ⟨rfl, rfl⟩ := Prod.mk.inj (Except.ok.inj (binds.symm.trans hquiet))
          exact ih ((((Like.refl hlike.undeclared).advance 0 a.lead.length).trans hread).symm.trans hlike) hs'

theorem GivenRun.added {s : State} (hs : Undeclared s.docType) {x r : List Char} (hattr : isLocalName attr = true)
    (hxmlns : attr ≠ "xmlns".toList) (hx : ∀ c ∈ x, isXmlChar c = true) (bound : Scope)
    (hproper : (WrittenAttribute.added attr x).Proper) (hrest : s.rest = (WrittenAttribute.added attr x).text ++ r) :
    ∃ g t, GivenRun [] s bound [.added attr x] [g] t bound ∧ g.owner = none ∧ g.name = attr ∧ t.rest = r ∧ Like s t := by
  have hlead : ' ' :: (s.advance 1).rest = (WrittenAttribute.added attr x).text ++ r := by
    rw [State.rest_advance, hrest]
    rfl
  obtain ⟨g, t, hread, howner, hname, ht, hlike⟩ := given_added (s := s.advance 1) (by simpa using hs) hattr hx hlead
  have hfull : g.fullName = attr := by rw [Given.fullName, howner, hname]
  have hnone : g.binds? = none := by
    rw [Given.binds?, howner, hname]
    dsimp only
    rw [if_neg (by simpa using hxmlns)]
  refine ⟨g, t, .cons hproper (List.forall_mem_singleton.mpr rfl) hfull.symm (by rw [hrest, ht]) hread ?_ (.nil _ _), howner,
    hname, ht, ((Like.refl hs).advance 0 1).trans hlike⟩
  unfold bindGiven
  rw [hnone]
  rfl

end Transport

variable {α β : Type} {s t : State}

/-- Something is read for each member of a list, one after another. -/
inductive Each (f : α → Reading β) : List α → State → State → Prop where
  | nil (s : State) : Each f [] s s
  | cons {a : α} {b : β} {l : List α} {s m t : State} (first : f a s = .ok (b, m)) (more : Each f l m t) :
      Each f (a :: l) s t

/-- An owner that no namespace is bound to is noted. -/
def noteOwner (scope : Scope) (owner : Option (List Char)) (name : List Char) : Reading Unit :=
  owner.elim (pure ()) fun p =>
    if (scope.uri? p).isNone then note (.prefixUndefined (String.ofList p) (String.ofList name)) else pure ()

/-- Attributes with the namespaces that they are in. -/
def named (scope : Scope) (plain : List Given) : List (Given × Option (List Char)) :=
  plain.map fun g => (g, g.owner.bind scope.uri?)

/-- What is looked at in the names of a tag and of its attributes, where nothing is declared. -/
def NamesChecked (scope : Scope) (owner : Option (List Char)) (name : List Char) (plain : List Given) (s t : State) : Prop :=
  ∃ m m₁ m₂, Each (attributeUri scope name) plain s m ∧ distinct (named scope plain) m = .ok ((), m₁) ∧
    noteOwner scope owner name m₁ = .ok ((), m₂) ∧ Each (checkId []) plain m₂ t

/-- The end of a start tag. -/
def tagEnd (closed : Bool) : List Char := if closed then ['/', '>'] else ['>']

/-- The parts of a start tag, read one after another, where nothing is declared. -/
def TagSteps (outer : Scope) (s : State) (e : Open) (closed : Bool) (t : State) : Prop :=
  ∃ m m₁ m₂ m₃ b written bound, qualifiedName (s.advance 1) = .ok ((e.owner, e.name), m) ∧ e.name ≠ [] ∧
    spaces m = .ok (b, m₁) ∧ givens [] m₁.rest.length.succ [] m₁ = .ok ((written, bound), m₂) ∧
      e.scope = bound ++ outer ∧
        NamesChecked e.scope e.owner e.name (written.filter fun g => g.binds?.isNone) m₂ m₃ ∧
          m₃.rest = tagEnd closed ++ t.rest ∧ t = m₃.advance (tagEnd closed).length

section Steps

theorem each_iff_mapM {f : α → Reading β} {l : List α} : Each f l s t ↔ ∃ bs, l.mapM f s = .ok (bs, t) := by
  constructor
  · intro h
    induction h with
    | nil s => exact ⟨[], rfl⟩
    | cons first more ih =>
        obtain ⟨bs, hbs⟩ := ih
        rw [List.mapM_cons]
        exact ⟨_, bind_eq_ok.mpr ⟨_, _, first, bind_eq_ok.mpr ⟨bs, _, hbs, rfl⟩⟩⟩
  · rintro ⟨bs, h⟩
    induction l generalizing s bs with
    | nil =>
        obtain ⟨-, rfl⟩ := pure_eq_ok.mp h
        exact .nil s
    | cons a l ih =>
        rw [List.mapM_cons] at h
        obtain ⟨b, m, hfirst, h⟩ := bind_eq_ok.mp h
        obtain ⟨bs, m', hmore, h⟩ := bind_eq_ok.mp h
        obtain ⟨-, rfl⟩ := pure_eq_ok.mp h
        exact .cons hfirst (ih bs hmore)

theorem each_iff_forM {f : α → Reading PUnit} {l : List α} : Each f l s t ↔ l.forM f s = .ok ((), t) := by
  constructor
  · intro h
    induction h with
    | nil s => rfl
    | cons first more ih => exact bind_eq_ok.mpr ⟨_, _, first, ih⟩
  · intro h
    induction l generalizing s with
    | nil =>
        obtain ⟨-, rfl⟩ := pure_eq_ok.mp h
        exact .nil s
    | cons a l ih =>
        obtain ⟨b, m, hfirst, h⟩ := bind_eq_ok.mp h
        exact .cons hfirst (ih h)

theorem expect_iff {mark : List Char} {cause : Cause} {u : Unit} :
    expect mark cause s = .ok (u, t) ↔ s.rest = mark ++ t.rest ∧ t = s.advance mark.length := by
  constructor
  · intro h
    refine ⟨expect_eq_ok h, ?_⟩
    obtain ⟨b, m, haccept, hend⟩ := bind_eq_ok.mp h
    cases b with
    | true =>
        obtain ⟨-, rfl⟩ := pure_eq_ok.mp hend
        exact (accept_eq_ok.mp haccept).2
    | false => exact absurd hend fail_eq_ok
  · rintro ⟨hrest, rfl⟩
    exact bind_eq_ok.mpr ⟨true, _, accept_eq_ok.mpr ⟨List.isPrefixOf_iff_prefix.mpr ⟨_, hrest.symm⟩, rfl⟩, rfl⟩

/-- A start tag ends at its bracket, with a slash before it where it is closed. -/
theorem close_iff {f : Bool → α} {cause : Cause} {k : State} {a : α} :
    (do
      let closed ← accept ['/', '>']
      if closed then return f closed
      else
        expect ['>'] cause
        return f closed : Reading α) k = .ok (a, t) ↔
      ∃ closed, f closed = a ∧ k.rest = tagEnd closed ++ t.rest ∧ t = k.advance (tagEnd closed).length := by
  constructor
  · intro h
    obtain ⟨closed, m, haccept, hend⟩ := bind_eq_ok.mp h
    cases closed with
    | true =>
        obtain ⟨ha, rfl⟩ := pure_eq_ok.mp hend
        exact ⟨true, ha, accept_true haccept, (accept_eq_ok.mp haccept).2⟩
    | false =>
        obtain ⟨-, hm⟩ := accept_false haccept
        obtain ⟨u, m', hexpect, hlast⟩ := bind_eq_ok.mp hend
        obtain ⟨ha, rfl⟩ := pure_eq_ok.mp hlast
        rw [hm] at hexpect
        exact ⟨false, ha, expect_iff.mp hexpect⟩
  · rintro ⟨closed, rfl, hrest, ht⟩
    cases closed with
    | true =>
        refine bind_eq_ok.mpr ⟨true, _, accept_eq_ok.mpr ⟨List.isPrefixOf_iff_prefix.mpr ⟨_, hrest.symm⟩, ?_⟩, rfl⟩
        exact ht
    | false =>
        refine bind_eq_ok.mpr ⟨false, k, accept_eq_ok.mpr ⟨?_, rfl⟩, bind_eq_ok.mpr ⟨(), t, expect_iff.mpr ⟨hrest, ht⟩, rfl⟩⟩
        rw [hrest]
        rfl

theorem attributeUri_eq_ok {scope : Scope} {element : List Char} {g : Given} {uri : Option (List Char)}
    (h : attributeUri scope element g s = .ok (uri, t)) : uri = g.owner.bind scope.uri? := by
  unfold attributeUri at h
  cases howner : g.owner with
  | none =>
      rw [howner] at h
      exact (pure_eq_ok.mp h).1.symm
  | some owner =>
      rw [howner] at h
      dsimp only at h
      rw [Option.bind_some]
      cases huri : scope.uri? owner with
      | some uri' =>
          rw [huri] at h
          exact (pure_eq_ok.mp h).1.symm
      | none =>
          rw [huri] at h
          obtain ⟨u, m, -, h⟩ := bind_eq_ok.mp h
          exact (pure_eq_ok.mp h).1.symm

theorem map_fst_named (scope : Scope) (plain : List Given) : (named scope plain).map (·.1) = plain := by
  rw [named, List.map_map]
  exact List.map_id plain

theorem zip_uris {scope : Scope} {element : List Char} {plain : List Given} {uris : List (Option (List Char))}
    (h : plain.mapM (attributeUri scope element) s = .ok (uris, t)) :
    plain.zip uris = named scope plain := by
  induction plain generalizing s uris with
  | nil => rfl
  | cons g plain ih =>
      rw [List.mapM_cons] at h
      obtain ⟨uri, m, huri, h⟩ := bind_eq_ok.mp h
      obtain ⟨uris', m', huris, h⟩ := bind_eq_ok.mp h
      obtain ⟨rfl, rfl⟩ := pure_eq_ok.mp h
      rw [List.zip_cons_cons, ih huris, attributeUri_eq_ok huri]
      rfl

theorem of_startTag {outer : Scope} {tag : Markup.Tag} {e : Open} {closed : Bool} (hs : Undeclared s.docType)
    (h : startTag outer s = .ok ((tag, e, closed), t)) : TagSteps outer s e closed t := by
  unfold startTag at h
  rw [bind_get_apply, bind_skip_apply] at h
  obtain ⟨⟨owner, name⟩, m, hname, h⟩ := bind_eq_ok.mp h
  dsimp only at h
  split at h
  next => exact absurd h fail_eq_ok
  next hne =>
    obtain ⟨b₀, hb₀⟩ := Undeclaring.qualifiedName _ _ _ (by simpa using hs) hname
    rw [bind_docType_apply, hb₀] at h
    obtain ⟨b, m₁, hspaces, h⟩ := bind_eq_ok.mp h
    rw [bind_remaining_apply] at h
    obtain ⟨⟨written, bound⟩, m₂, hgivens, h⟩ := bind_eq_ok.mp h
    simp only [List.filter_nil, List.filterMap_nil, List.foldlM_nil, List.mapM_nil, bind_pure_apply] at h
    obtain ⟨uris, m₃, huris, h⟩ := bind_eq_ok.mp h
    rw [zip_uris huris, map_fst_named] at h
    obtain ⟨u, m₄, hdistinct, h⟩ := bind_eq_ok.mp h
    rw [bind_pure_apply] at h
    have hclose {k : State} {tag' : Markup.Tag} {e' : Open} {cause : Cause} {gs : List Given}
        (hnote : noteOwner (bound ++ outer) owner name m₄ = .ok ((), k)) (h : (do
          gs.forM (checkId [])
          let closed ← accept ['/', '>']
          if closed then return (tag', e', closed)
          else
            expect ['>'] cause
            return (tag', e', closed) : Reading (Markup.Tag × Open × Bool)) k = .ok ((tag, e, closed), t)) :
        e' = e ∧ ∃ k k', noteOwner (bound ++ outer) owner name m₄ = .ok ((), k) ∧ gs.forM (checkId []) k = .ok ((), k') ∧
          k'.rest = tagEnd closed ++ t.rest ∧ t = k'.advance (tagEnd closed).length := by
      obtain ⟨u, k', hids, h⟩ := bind_eq_ok.mp h
      obtain ⟨closed', heq, hend⟩ := (close_iff (f := fun closed => (tag', e', closed))).mp h
      cases heq
      exact ⟨rfl, k, k', hnote, hids, hend⟩
    suffices hend : e = ⟨owner, name, s.line, bound ++ outer⟩ ∧ ∃ k k',
        noteOwner (bound ++ outer) owner name m₄ = .ok ((), k) ∧
          (written.filter fun g => g.binds?.isNone).forM (checkId []) k = .ok ((), k') ∧
            k'.rest = tagEnd closed ++ t.rest ∧ t = k'.advance (tagEnd closed).length by
      obtain ⟨rfl, k, k', hnote, hids, hend⟩ := hend
      exact ⟨m, m₁, m₂, k', b, written, bound, hname, by simpa using hne, hspaces, hgivens, rfl,
        ⟨m₃, m₄, k, each_iff_mapM.mpr ⟨uris, huris⟩, hdistinct, hnote, each_iff_forM.mpr hids⟩, hend⟩
    cases owner with
    | none =>
        obtain ⟨rfl, hend⟩ := hclose rfl h
        exact ⟨rfl, hend⟩
    | some p =>
        obtain ⟨hnone, h⟩ | ⟨hnone, h⟩ := of_ite h
        · have hnote : noteOwner (bound ++ outer) (some p) name m₄ = _ := congrFun (if_pos hnone) m₄
          obtain ⟨rfl, hend⟩ := hclose hnote h
          exact ⟨rfl, hend⟩
        · have hnote : noteOwner (bound ++ outer) (some p) name m₄ = _ := congrFun (if_neg hnone) m₄
          obtain ⟨rfl, hend⟩ := hclose hnote h
          exact ⟨rfl, hend⟩

theorem exists_bind {β γ : Type} {x : Reading α} {f : α → Reading (β × γ)} {a : α} {c : γ} {m : State}
    (hx : x s = .ok (a, m)) (hf : ∃ b, f a m = .ok ((b, c), t)) : ∃ b, (x >>= f) s = .ok ((b, c), t) :=
  hf.imp fun _ hb => bind_eq_ok.mpr ⟨a, m, hx, hb⟩

/-- Parts that are read one after another are read as a start tag. -/
theorem TagSteps.startTag {outer : Scope} {e : Open} {closed : Bool} (hs : Undeclared s.docType)
    (h : TagSteps outer s e closed t) (hline : e.line = s.line) : ∃ tag, startTag outer s = .ok ((tag, e, closed), t) := by
  obtain ⟨m, m₁, m₂, m₃, b, written, bound, hname, hne, hspaces, hgivens, hscope, hnames, hclose⟩ := h
  obtain ⟨k, k₁, k₂, huris, hdistinct, hnote, hids⟩ := hnames
  obtain ⟨uris, huris⟩ := each_iff_mapM.mp huris
  have hids := each_iff_forM.mp hids
  obtain ⟨owner, name, line, scope⟩ := e
  obtain rfl : line = s.line := hline
  obtain rfl : scope = bound ++ outer := hscope
  obtain ⟨b₀, hb₀⟩ := Undeclaring.qualifiedName _ _ _ (by simpa using hs) hname
  unfold Reading.startTag
  simp only [bind_get_apply, bind_skip_apply]
  refine exists_bind hname ?_
  dsimp only
  simp only [if_neg (show ¬ name.isEmpty = true by simpa using hne), bind_docType_apply, hb₀]
  refine exists_bind hspaces ?_
  simp only [bind_remaining_apply]
  refine exists_bind hgivens ?_
  simp only [List.filter_nil, List.filterMap_nil, List.foldlM_nil, List.mapM_nil, bind_pure_apply]
  refine exists_bind huris ?_
  simp only [zip_uris huris, map_fst_named]
  refine exists_bind hdistinct ?_
  simp only [bind_pure_apply]
  have hend {k : State} {tag : Markup.Tag} {e : Open} {cause : Cause} {gs : List Given}
      (hids : gs.forM (checkId []) k = .ok ((), m₃)) : (do
        gs.forM (checkId [])
        let closed ← accept ['/', '>']
        if closed then return (tag, e, closed)
        else
          expect ['>'] cause
          return (tag, e, closed) : Reading (Markup.Tag × Open × Bool)) k = .ok ((tag, e, closed), t) :=
    bind_eq_ok.mpr ⟨(), m₃, hids, (close_iff (f := fun closed => (tag, e, closed))).mpr ⟨closed, rfl, hclose⟩⟩
  cases owner with
  | none =>
      obtain rfl := (pure_eq_ok.mp hnote).2
      exact ⟨_, hend hids⟩
  | some p =>
      dsimp only [Option.getD_some]
      split
      next hnone =>
        have hk : noteOwner (bound ++ outer) (some p) name k₁ = _ := congrFun (if_pos hnone) k₁
        simp only [bind_note_apply]
        obtain ⟨-, rfl⟩ := Prod.mk.inj (Except.ok.inj (hk.symm.trans hnote))
        exact ⟨_, hend hids⟩
      next hnone =>
        have hk : noteOwner (bound ++ outer) (some p) name k₁ = _ := congrFun (if_neg hnone) k₁
        obtain ⟨-, rfl⟩ := Prod.mk.inj (Except.ok.inj (hk.symm.trans hnote))
        exact ⟨_, hend hids⟩

end Steps

end Reading

end MarkupIds.Xml
