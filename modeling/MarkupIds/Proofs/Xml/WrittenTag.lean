import MarkupIds.Proofs.Xml.OghamFree

/-! Tags that the reader of documents passes, as the reader of tokens finds them. -/

namespace MarkupIds.Xml

open MarkupIds.Text (isBlank)

/-- A place further on in the same tag. -/
structure FurtherIn (s t : List Char) : Prop where
  behind : behindTag s = behindTag t
  inside : ∀ c ∈ inTag t, c ∈ inTag s

namespace FurtherIn

variable {s t u : List Char}

theorem refl (s : List Char) : FurtherIn s s := ⟨rfl, fun _ h => h⟩

theorem trans (h : FurtherIn s t) (h' : FurtherIn t u) : FurtherIn s u :=
  ⟨h.behind.trans h'.behind, fun c hc => h.inside c (h'.inside c hc)⟩

theorem run {run : List Char} (h : ∀ c ∈ run, c ≠ '>' ∧ c ≠ '"' ∧ c ≠ '\'') : FurtherIn (run ++ s) s := by
  obtain ⟨hin, hbehind⟩ := outside_run (s := s) h
  exact ⟨hbehind, fun c hc => hin ▸ List.mem_append_right _ hc⟩

theorem value {quote : Char} {v : List Char} (hquote : quote = '"' ∨ quote = '\'') (h : quote ∉ v) :
    FurtherIn (quote :: (v ++ quote :: s)) s := by
  obtain ⟨hin, hbehind⟩ := outside_value (s := s) hquote h
  exact ⟨hbehind, fun c hc => hin ▸ hc⟩

end FurtherIn

theorem unquoted_of_all {p : Char → Bool} {run : List Char} (h : ∀ c ∈ run, p c = true) (hclose : p '>' = false)
    (hdouble : p '"' = false) (hsingle : p '\'' = false) : ∀ c ∈ run, c ≠ '>' ∧ c ≠ '"' ∧ c ≠ '\'' := by
  intro c hc
  have hp := h c hc
  refine ⟨?_, ?_, ?_⟩ <;>
    · rintro rfl
      simp_all

theorem mem_inTag {run s : List Char} (h : ∀ c ∈ run, isNameChar c = true) {c : Char} (hc : c ∈ run) :
    c ∈ inTag (run ++ s) := by
  rw [(outside_run (s := s) (unquoted_of_all h (by decide) (by decide) (by decide))).1]
  exact List.mem_append_left _ hc

namespace Reading

/-- Attributes are read one after another, each behind white space of its own: `gs` is what they are, and `bound'`
the names that they bind beside those of `bound`. -/
inductive GivenRun (rules : List AttributeRule) :
    State → Scope → List WrittenAttribute → List Given → State → Scope → Prop where
  | nil (s : State) (bound : Scope) : GivenRun rules s bound [] [] s bound
  | cons {s m t u : State} {bound bound' bound'' : Scope} {a : WrittenAttribute} {g : Given}
      {attributes : List WrittenAttribute} {gs : List Given} (proper : a.Proper) (blank : ∀ c ∈ a.lead, isSpace c = true)
      (name : a.name = g.fullName) (text : s.rest = a.text ++ t.rest)
      (read : given rules (s.advance a.lead.length) = .ok (g, m)) (binds : bindGiven bound g m = .ok (bound', t))
      (more : GivenRun rules t bound' attributes gs u bound'') :
      GivenRun rules s bound (a :: attributes) (g :: gs) u bound''

namespace GivenRun

variable {rules : List AttributeRule} {s u : State} {bound bound' : Scope} {attributes : List WrittenAttribute}
  {gs : List Given}

theorem proper (h : GivenRun rules s bound attributes gs u bound') : ∀ a ∈ attributes, a.Proper := by
  induction h with
  | nil => exact List.forall_mem_nil _
  | cons proper _ _ _ _ _ _ ih => exact List.forall_mem_cons.mpr ⟨proper, ih⟩

theorem text_eq (h : GivenRun rules s bound attributes gs u bound') :
    s.rest = attributes.flatMap WrittenAttribute.text ++ u.rest := by
  induction h with
  | nil => rfl
  | cons _ _ _ text _ _ _ ih => rw [text, ih, List.flatMap_cons, List.append_assoc]

end GivenRun

end Reading

namespace Reading

variable {s m t : State}

theorem given_further {rules : List AttributeRule} {g : Given} (h : given rules s = .ok (g, t)) :
    FurtherIn s.rest t.rest ∧ ∀ c ∈ g.fullName, c ∈ inTag s.rest := by
  obtain ⟨-, hchars, before, behind, quote, run, hrest, hbefore, hbehind, hquote, hnot⟩ := given_text h
  have hname := unquoted_of_all hchars (by decide) (by decide) (by decide)
  have hspace {run : List Char} (h : ∀ c ∈ run, isSpace c = true) :=
    unquoted_of_all h (by decide) (by decide) (by decide)
  rw [hrest, List.append_assoc]
  constructor
  · have hequals : FurtherIn (['='] ++ (behind ++ quote :: (run ++ quote :: t.rest))) t.rest :=
      (FurtherIn.run (by simp)).trans ((FurtherIn.run (hspace hbehind)).trans (.value hquote hnot))
    exact (FurtherIn.run hname).trans ((FurtherIn.run (hspace hbefore)).trans hequals)
  · exact fun c hc => mem_inTag hchars hc

theorem advance_of_spaces {b : Bool} (h : spaces s = .ok (b, t)) : t = s.advance (s.rest.takeWhile isSpace).length := by
  obtain ⟨run, m, htake, h⟩ := bind_eq_ok.mp h
  obtain ⟨-, rfl⟩ := pure_eq_ok.mp h
  exact (takeWhile_eq_ok.mp htake).2.symm

/-- The attributes behind a place are passed, and white space behind the last one. -/
theorem givenRun_of_givens {k : State} {rules : List AttributeRule} {fuel : Nat} {bound : Scope}
    {given : List Given × Scope} {b : Bool} (hspaces : spaces k = .ok (b, s)) (h : givens rules fuel bound s = .ok (given, t))
    (hogham : oghamSpace ∉ inTag s.rest)
    (hlead : k.rest.takeWhile isSpace = [] → ∀ c, s.rest.head? = some c → isNameChar c = false) :
    FurtherIn s.rest t.rest ∧ ∃ attributes u blanks, GivenRun rules k bound attributes given.1 u given.2 ∧
      u.rest = blanks ++ t.rest ∧ (∀ c ∈ blanks, isSpace c = true) ∧ t = u.advance blanks.length := by
  induction fuel generalizing k s b bound given with
  | zero =>
      obtain ⟨rfl, rfl⟩ := pure_eq_ok.mp h
      obtain ⟨hrest, -⟩ := spaces_eq_ok hspaces
      refine ⟨.refl _, [], k, k.rest.takeWhile isSpace, .nil _ _, ?_, fun c => List.mem_takeWhile_imp,
        advance_of_spaces hspaces⟩
      rw [hrest, List.takeWhile_append_dropWhile]
  | succ fuel ih =>
      obtain ⟨hrest, -⟩ := spaces_eq_ok hspaces
      have hsplit : k.rest.takeWhile isSpace ++ s.rest = k.rest := by
        rw [hrest, List.takeWhile_append_dropWhile]
      rw [givens] at h
      obtain ⟨b', m, hend, hmore⟩ := bind_eq_ok.mp h
      rw [atTagEnd_eq_ok hend] at hmore
      clear h
      split at hmore
      next =>
        obtain ⟨rfl, rfl⟩ := pure_eq_ok.mp hmore
        exact ⟨.refl _, [], k, k.rest.takeWhile isSpace, .nil _ _, hsplit.symm, fun c => List.mem_takeWhile_imp,
          advance_of_spaces hspaces⟩
      next =>
        obtain ⟨g, m₁, hgiven, h⟩ := bind_eq_ok.mp hmore
        obtain ⟨bound', m₂, hbind, h⟩ := bind_eq_ok.mp h
        obtain ⟨hfurther, hmem⟩ := given_further hgiven
        obtain ⟨⟨c, hhead, hchar⟩, -⟩ := given_eq_ok hgiven
        have hne : k.rest.takeWhile isSpace ≠ [] := fun hnil => by
          rw [hlead hnil c hhead] at hchar
          cases hchar
        obtain ⟨a, ha, hlead', hname, htext⟩ := exists_written hne (fun c => List.mem_takeWhile_imp)
          (fun h => hogham (hmem _ h)) hgiven
        have hkept := Keeps.bindGiven _ _ _ _ _ hbind
        rw [← hkept] at hfurther htext
        rw [hsplit] at htext
        rw [advance_of_spaces hspaces, ← hlead'] at hgiven
        have hblank : ∀ c ∈ a.lead, isSpace c = true := hlead' ▸ fun c => List.mem_takeWhile_imp
        rw [bind_remaining_apply] at h
        have hlast (h : (pure ([g], bound') : Reading (List Given × Scope)) m₂ = .ok (given, t)) :
            FurtherIn s.rest t.rest ∧ ∃ attributes u blanks, GivenRun rules k bound attributes given.1 u given.2 ∧
              u.rest = blanks ++ t.rest ∧ (∀ c ∈ blanks, isSpace c = true) ∧ t = u.advance blanks.length := by
          obtain ⟨rfl, rfl⟩ := pure_eq_ok.mp h
          exact ⟨hfurther, [a], m₂, [], .cons ha hblank hname htext hgiven hbind (.nil _ _), rfl, List.forall_mem_nil _, rfl⟩
        generalize hrest : m₂.rest = rest at h
        split at h
        next => exact hlast h
        next => exact hlast h
        next =>
          obtain ⟨u, m₃, hspace, h⟩ := bind_eq_ok.mp h
          obtain ⟨more, m₄, hgivens, h⟩ := bind_eq_ok.mp h
          obtain ⟨rfl, rfl⟩ := pure_eq_ok.mp h
          obtain ⟨hsome, -⟩ := someSpace_eq_ok hspace
          obtain ⟨b₃, k₃, hspaces₃, hspace⟩ := bind_eq_ok.mp hspace
          obtain rfl : m₃ = k₃ := by
            cases b₃ with
            | true => exact (pure_eq_ok.mp hspace).2.symm
            | false => exact absurd hspace fail_eq_ok
          obtain ⟨run, hrun, hblanks, -⟩ := spaces_eq hspaces₃
          have hstep : FurtherIn m₂.rest m₃.rest := by
            rw [hrun]
            exact .run (unquoted_of_all hblanks (by decide) (by decide) (by decide))
          obtain ⟨hon, attributes, v, blanks, hgone, hv⟩ := ih hspaces₃ hgivens
            (fun h => hogham (hfurther.inside _ (hstep.inside _ h))) fun hnil => absurd hnil hsome
          exact ⟨(hfurther.trans hstep).trans hon, a :: attributes, v, blanks,
            .cons ha hblank hname htext hgiven hbind hgone, hv⟩

/-- A name in a tag that is read and holds no ogham space mark. -/
def TagName (n : List Char) : Prop := n ≠ [] ∧ ∀ c ∈ n, isNameChar c = true ∧ c ≠ oghamSpace

theorem TagName.isBlank_eq {n : List Char} (h : TagName n) {c : Char} (hc : c ∈ n) : isBlank c = false :=
  isBlank_of_isNameChar (h.2 c hc).1 (h.2 c hc).2

/-- The start tag that has been read, as the reader of tokens finds it: its attributes are passed behind the name, and
white space behind them up to its end. -/
structure Written (rules : List AttributeRule) (m m₂ : State) (given : List Given × Scope) (closed : Bool) (w : StartTag) :
    Prop where
  proper : w.Proper
  closes : w.isEmptyElement = closed
  gone : ∃ u blanks, GivenRun rules m [] w.attributes given.1 u given.2 ∧ u.rest = blanks ++ m₂.rest ∧
    (∀ c ∈ blanks, isSpace c = true) ∧ m₂ = u.advance blanks.length ∧
      w.tail = blanks ++ if closed then ['/', '>'] else ['>']

/-- The parts of a start tag, read one after another, make a tag that the reader of tokens finds. -/
theorem exists_tag {rules : List AttributeRule} {fuel : Nat} {m₁ m₂ : State} {owner : Option (List Char)} {name y rest : List Char}
    {b closed : Bool} {given : List Given × Scope} (hs : s.rest = '<' :: y) (hogham : oghamSpace ∉ inTag y)
    (hname : qualifiedName (s.advance 1) = .ok ((owner, name), m)) (hne : name ≠ []) (hspaces : spaces m = .ok (b, m₁))
    (hgivens : givens rules fuel [] m₁ = .ok (given, m₂)) (hclose : m₂.rest = (if closed then ['/', '>'] else ['>']) ++ rest) :
    TagName (fullName owner name) ∧ behindTag y = rest ∧ ∃ w, Written rules m m₂ given closed w ∧
      w.name = fullName owner name ∧ s.rest = w.text ++ rest := by
  obtain ⟨hrest, hchars, -, hends⟩ := ran_qualifiedName hname
  rw [State.rest_advance, hs, List.drop_succ_cons, List.drop_zero] at hrest
  obtain ⟨blanks, hblanks, hblank, -⟩ := spaces_eq hspaces
  obtain ⟨hrun, -⟩ := spaces_eq_ok hspaces
  have hstep : FurtherIn y m₁.rest := by
    rw [hrest, hblanks]
    exact (FurtherIn.run (unquoted_of_all hchars (by decide) (by decide) (by decide))).trans
      (.run (unquoted_of_all hblank (by decide) (by decide) (by decide)))
  have htag : TagName (fullName owner name) := by
    refine ⟨fun hnil => hne (fullName_eq_nil hnil), fun c hc => ⟨hchars c hc, ?_⟩⟩
    rintro rfl
    exact hogham (hrest ▸ mem_inTag hchars hc)
  have hlead : m.rest.takeWhile isSpace = [] → ∀ c, m₁.rest.head? = some c → isNameChar c = false := by
    intro hnil c hc
    have hsame : m₁.rest = m.rest := by
      rw [← List.takeWhile_append_dropWhile (p := isSpace) (l := m.rest), hnil, hrun]
      rfl
    exact hends hne c (hsame ▸ hc)
  obtain ⟨hfurther, attributes, u, more, hgone, hu, hmore, hadvance⟩ :=
    givenRun_of_givens hspaces hgivens (fun h => hogham (hstep.inside _ h)) hlead
  refine ⟨htag, ?_,
    ⟨fullName owner name, attributes, more ++ if closed then ['/', '>'] else ['>']⟩,
    ⟨?_, ?_, ?_⟩, rfl, ?_⟩
  · rw [hstep.behind, hfurther.behind, hclose]
    cases closed <;> rfl
  · refine ⟨htag.1, fun c hc => ?_, hgone.proper, more, fun c hc => isBlank_of_isSpace (hmore c hc), ?_⟩
    · have hmarks : c ≠ '/' ∧ c ≠ '>' ∧ c ≠ '!' ∧ c ≠ '?' := by
        have hchar := hchars c hc
        refine ⟨?_, ?_, ?_, ?_⟩ <;>
          · rintro rfl
            exact absurd hchar (by decide)
      simp [StartTag.isNameChar, htag.isBlank_eq hc, hmarks]
    · cases closed
      · exact .inl rfl
      · exact .inr rfl
  · have hslash : '/' ∉ more := fun hmem => absurd (hmore _ hmem) (by decide)
    cases closed <;> simp [StartTag.isEmptyElement, hslash]
  · exact ⟨u, more, hgone, hu, hmore, hadvance, rfl⟩
  · rw [hs, hrest, hgone.text_eq, hu, hclose, StartTag.text]
    simp

/-- A start tag that is read is one that the reader of tokens finds, with the same name. -/
theorem startTag_written {outer : Scope} {tag : Markup.Tag} {e : Open} {closed : Bool} {y : List Char}
    (h : startTag outer s = .ok ((tag, e, closed), t)) (hs : s.rest = '<' :: y) (hogham : oghamSpace ∉ inTag y) :
    TagName e.fullName ∧ tag.written = String.ofList e.fullName ∧ behindTag y = t.rest ∧
      ∃ w : StartTag, w.Proper ∧ s.rest = w.text ++ t.rest ∧ w.name = e.fullName ∧ w.isEmptyElement = closed := by
  obtain ⟨rules, fuel, m, m₁, m₂, b, given, hname, hne, hspaces, hgivens, hclose, hwritten⟩ := startTag_steps h
  obtain ⟨htag, hbehind, w, hw, hwname, htext⟩ := exists_tag hs hogham hname hne hspaces hgivens hclose
  exact ⟨htag, hwritten, hbehind, w, hw.proper, htext, hwname, hw.closes⟩

theorem endTag_written {e : Open} {u : Unit} {y : List Char} (h : endTag e s = .ok (u, t))
    (hs : s.rest = '<' :: '/' :: y) (he : TagName e.fullName) :
    behindTag ('/' :: y) = t.rest ∧ ∃ raw, Token.Found s.rest (.closing raw) t.rest := by
  have hchars : ∀ c ∈ e.fullName, isNameChar c = true := fun c hc => (he.2 c hc).1
  obtain ⟨blanks, rfl, hblank⟩ := endTag_text h hs hchars
  constructor
  · have hname := unquoted_of_all hchars (by decide) (by decide) (by decide)
    have hfurther : FurtherIn (['/'] ++ (e.fullName ++ (blanks ++ '>' :: t.rest))) ('>' :: t.rest) :=
      (FurtherIn.run (by simp)).trans ((FurtherIn.run hname).trans
        (.run (unquoted_of_all hblank (by decide) (by decide) (by decide))))
    exact hfurther.behind
  · rw [hs]
    refine ⟨_, .closing t.rest he.1 (fun c hc => ?_) fun c hc => isBlank_of_isSpace (hblank c hc)⟩
    have hclose : c ≠ '>' := by
      rintro rfl
      exact absurd (hchars _ hc) (by decide)
    simp [Token.isClosingChar, he.isBlank_eq hc, hclose]

end Reading

end MarkupIds.Xml
