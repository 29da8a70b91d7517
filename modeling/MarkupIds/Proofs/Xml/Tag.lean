import MarkupIds.Proofs.Text.Cut
import MarkupIds.Proofs.Xml.Reference
import MarkupIds.Xml.Content

/-! Tags end at the first bracket outside of their values. -/

namespace MarkupIds.Xml

open MarkupIds.Text (isBlank)

/-- A run without equals signs and closing brackets. -/
def Bare (run : List Char) : Prop := ∀ c ∈ run, c ≠ '=' ∧ c ≠ '>'

theorem Bare.append {a b : List Char} (ha : Bare a) (hb : Bare b) : Bare (a ++ b) :=
  fun c hc => (List.mem_append.mp hc).elim (ha c) (hb c)

theorem bare_slash : Bare ['/'] := List.forall_mem_singleton.mpr (by decide)

theorem Bare.of_all {p : Char → Bool} {run : List Char} (hall : ∀ c ∈ run, p c = true)
    (hequals : p '=' = false) (hclose : p '>' = false) : Bare run := by
  intro c hc
  have hp := hall c hc
  constructor
  · rintro rfl
    exact absurd hp (by simp [hequals])
  · rintro rfl
    exact absurd hp (by simp [hclose])

/-- The text from inside a start tag on, and what follows the tag. A closing bracket in a value does not
end it. -/
inductive TagEnd : List Char → List Char → Prop where
  | close {run : List Char} (bare : Bare run) (rest : List Char) : TagEnd (run ++ '>' :: rest) rest
  | value {run blanks v s rest : List Char} {quote : Char} (bare : Bare run)
      (blank : ∀ c ∈ blanks, isBlank c = true) (quoted : quote = '"' ∨ quote = '\'') (inside : quote ∉ v)
      (more : TagEnd s rest) : TagEnd (run ++ '=' :: (blanks ++ quote :: (v ++ quote :: s))) rest

namespace TagEnd

theorem append {run s rest : List Char} (hrun : Bare run) (h : TagEnd s rest) : TagEnd (run ++ s) rest := by
  cases h with
  | close bare =>
      rw [← List.append_assoc]
      exact .close (hrun.append bare) rest
  | value bare blank quoted inside more =>
      rw [← List.append_assoc]
      exact .value (hrun.append bare) blank quoted inside more

/-- The first character after two runs that it is in neither of. -/
theorem eq_of_split {α : Type} {p : α → Prop} {a b s t : List α} {c d : α} (ha : ∀ x ∈ a, ¬ p x)
    (hb : ∀ x ∈ b, ¬ p x) (hc : p c) (hd : p d) (h : a ++ c :: s = b ++ d :: t) : a = b ∧ c = d ∧ s = t := by
  induction a generalizing b with
  | nil =>
      cases b with
      | nil =>
          obtain ⟨hcd, hst⟩ := List.cons.inj h
          exact ⟨rfl, hcd, hst⟩
      | cons x b =>
          obtain ⟨rfl, -⟩ := List.cons.inj h
          exact absurd hc (hb _ List.mem_cons_self)
  | cons x a ih =>
      cases b with
      | nil =>
          obtain ⟨rfl, -⟩ := List.cons.inj h
          exact absurd hd (ha _ List.mem_cons_self)
      | cons y b =>
          obtain ⟨rfl, htails⟩ := List.cons.inj h
          obtain ⟨rfl, hrest⟩ := ih (fun z hz => ha z (List.mem_cons_of_mem _ hz))
            (fun z hz => hb z (List.mem_cons_of_mem _ hz)) htails
          exact ⟨rfl, hrest⟩

theorem eq_of_bare {a b s t : List Char} {c d : Char} (ha : Bare a) (hb : Bare b) (hc : c = '=' ∨ c = '>')
    (hd : d = '=' ∨ d = '>') (h : a ++ c :: s = b ++ d :: t) : c = d ∧ s = t := by
  have hbare {run : List Char} (hrun : Bare run) : ∀ x ∈ run, ¬ (x = '=' ∨ x = '>') := fun x hx hor =>
    hor.elim (hrun x hx).1 (hrun x hx).2
  exact (eq_of_split (hbare ha) (hbare hb) hc hd h).2

theorem unique {s rest rest' : List Char} (h : TagEnd s rest) (h' : TagEnd s rest') : rest = rest' := by
  induction h generalizing rest' with
  | @close run bare rest =>
      generalize hs : run ++ '>' :: rest = s at h'
      cases h' with
      | close bare' => exact (eq_of_bare bare bare' (.inr rfl) (.inr rfl) hs).2
      | value bare' blank' quoted' inside' more' =>
          exact absurd (eq_of_bare bare bare' (.inr rfl) (.inl rfl) hs).1 (by decide)
  | @value run blanks v s rest quote bare blank quoted inside more ih =>
      generalize hs : run ++ '=' :: (blanks ++ quote :: (v ++ quote :: s)) = u at h'
      cases h' with
      | close bare' => exact absurd (eq_of_bare bare bare' (.inl rfl) (.inr rfl) hs).1 (by decide)
      | @value _ blanks' v' s' _ quote' bare' blank' quoted' inside' more' =>
          have hequals := (eq_of_bare bare bare' (.inl rfl) (.inl rfl) hs).2
          have hmark {q : Char} (hq : q = '"' ∨ q = '\'') : ¬ isBlank q = true := by
            obtain rfl | rfl := hq <;> decide
          obtain ⟨-, rfl, hquote⟩ := eq_of_split (p := fun c => ¬ isBlank c = true)
            (fun c hc => not_not.mpr (blank c hc)) (fun c hc => not_not.mpr (blank' c hc)) (hmark quoted)
            (hmark quoted') hequals
          obtain ⟨-, -, rfl⟩ := eq_of_split (p := (· = quote)) (fun c hc heq => inside (heq ▸ hc))
            (fun c hc heq => inside' (heq ▸ hc)) rfl rfl hquote
          exact ih more'

end TagEnd

namespace Reading

variable {s t : State}

theorem bare_of_isSpace {run : List Char} (h : ∀ c ∈ run, isSpace c = true) : Bare run :=
  .of_all h (by decide) (by decide)

theorem isBlank_of_isSpace {c : Char} (h : isSpace c = true) : isBlank c = true := by
  simp only [isSpace, Bool.or_eq_true, beq_iff_eq] at h
  obtain ((rfl | rfl) | rfl) | rfl := h <;> decide

namespace Keeps

theorem bindBound (bound : Scope) (name uri : List Char) : Keeps (Reading.bind bound name uri) := by
  unfold Reading.bind
  dsimp only
  split
  · exact (Keeps.fail _).bind fun _ => .pure _
  · exact .pure _

theorem bindDefault (bound : Scope) (uri : List Char) : Keeps (Reading.bindDefault bound uri) := by
  unfold Reading.bindDefault
  have hrest : Keeps (if uri == xmlNamespace then do
        Reading.note .xmlNamespaceAsDefault
        return bound
      else if uri == xmlnsNamespace then do
        Reading.note .xmlnsNamespaceReused
        return bound
      else Reading.bind bound [] uri : Reading Scope) :=
    ((Keeps.note _).bind fun _ => .pure _).ite (((Keeps.note _).bind fun _ => .pure _).ite (.bindBound _ _ _))
  dsimp only
  split
  · exact hrest
  split
  · exact (Keeps.note _).bind fun _ => hrest
  split
  · exact (Keeps.note _).bind fun _ => hrest
  · exact hrest

theorem bindName (bound : Scope) (name uri : List Char) : Keeps (Reading.bindName bound name uri) := by
  unfold Reading.bindName
  dsimp only
  split
  · split
    · exact (Keeps.note _).bind fun _ => .pure _
    · exact .pure _
  repeat' first
    | exact (Keeps.note _).bind fun _ => .pure _
    | exact (Keeps.note _).bind fun _ => .bindBound _ _ _
    | exact .bindBound _ _ _
    | split

theorem bindGiven (bound : Scope) (g : Given) : Keeps (Reading.bindGiven bound g) := by
  unfold Reading.bindGiven
  split
  · exact .pure _
  · exact .bindDefault _ _
  · exact .bindName _ _ _

theorem attributeUri (scope : Scope) (element : List Char) (g : Given) :
    Keeps (Reading.attributeUri scope element g) := by
  unfold Reading.attributeUri
  split
  · exact .pure _
  · split
    · exact .pure _
    · exact (Keeps.note _).bind fun _ => .pure _

theorem clashes (seen named : List (Given × Option (List Char))) : Keeps (Reading.clashes seen named) := by
  induction named generalizing seen with
  | nil => exact .pure _
  | cons a named ih =>
      obtain ⟨g, uri⟩ := a
      rw [Reading.clashes]
      refine (ih seen).ite ?_
      cases seen.find? fun other => other.1.name == g.name && other.2 == uri with
      | none => exact ih _
      | some other => exact (Keeps.fail _).ite ((Keeps.note _).bind fun _ => (ih seen).bind fun _ => .pure _)

theorem distinct (named : List (Given × Option (List Char))) : Keeps (Reading.distinct named) := by
  unfold Reading.distinct
  refine (clashes [] named).bind fun count => ite ?_ (.pure _)
  dsimp only
  split
  · exact .fail _
  · exact .pure _

theorem checkSpace (g : Given) : Keeps (Reading.checkSpace g) := by
  unfold Reading.checkSpace
  split
  · split
    · exact .note _
    · exact .pure _
  · exact .pure _

theorem checkId (rules : List AttributeRule) (g : Given) : Keeps (Reading.checkId rules g) := by
  unfold Reading.checkId
  have hlast : Keeps (do
      if (← get).ids.contains g.value then Reading.note (.idRedefined (String.ofList g.value))
      else modify fun s => { s with ids := g.value :: s.ids }) := by
    refine Keeps.state.bind fun s => ?_
    split
    · exact .note _
    · exact .change fun _ => rfl
  dsimp only
  split
  · split
    · exact .pure _
    split
    · exact (Keeps.note _).bind fun _ => hlast
    · exact hlast
  · exact .pure _

end Keeps

/-- White space is passed. -/
theorem spaces_eq {b : Bool} (h : spaces s = .ok (b, t)) :
    ∃ run, s.rest = run ++ t.rest ∧ (∀ c ∈ run, isSpace c = true) ∧
      ∀ c, t.rest.head? = some c → isSpace c = false := by
  obtain ⟨hrest, -⟩ := spaces_eq_ok h
  refine ⟨s.rest.takeWhile isSpace, ?_, fun c => List.mem_takeWhile_imp, fun c hc => ?_⟩
  · rw [hrest, List.takeWhile_append_dropWhile]
  · rw [hrest] at hc
    have hnot := List.head?_dropWhile_not isSpace s.rest
    rw [hc] at hnot
    exact hnot

theorem fullName_eq_nil {owner : Option (List Char)} {name : List Char} (h : fullName owner name = []) :
    name = [] := by
  cases owner with
  | none => exact h
  | some owner => cases owner <;> cases h

theorem given_eq_ok {rules : List AttributeRule} {g : Given} (h : given rules s = .ok (g, t)) :
    (∃ c, s.rest.head? = some c ∧ isNameChar c = true) ∧ ∀ rest, TagEnd t.rest rest → TagEnd s.rest rest := by
  unfold given at h
  obtain ⟨⟨owner, name⟩, m, hname, h⟩ := bind_eq_ok.mp h
  obtain ⟨hrest, hchars, hempty, -⟩ := ran_qualifiedName hname
  dsimp only at h
  split at h
  next => exact absurd h fail_eq_ok
  next hne =>
    obtain ⟨b₁, m₁, hspaces, h⟩ := bind_eq_ok.mp h
    obtain ⟨u, m₂, hequals, h⟩ := bind_eq_ok.mp h
    obtain ⟨b₂, m₃, hspaces', h⟩ := bind_eq_ok.mp h
    obtain ⟨v, m₄, hvalue, h⟩ := bind_eq_ok.mp h
    obtain ⟨u', m₅, hcheck, h⟩ := bind_eq_ok.mp h
    obtain ⟨-, rfl⟩ := pure_eq_ok.mp h
    obtain ⟨before, hbefore, hblank, -⟩ := spaces_eq hspaces
    obtain ⟨behind, hbehind, hblank', -⟩ := spaces_eq hspaces'
    obtain ⟨quote, run, hquote, hrun, hnot⟩ := value_eq_ok hvalue
    have hkept := Keeps.checkSpace _ _ _ _ hcheck
    have hwritten : s.rest = (fullName owner name ++ before) ++
        '=' :: (behind ++ quote :: (run ++ quote :: m₅.rest)) := by
      rw [hrest, hbefore, expect_eq_ok hequals, hbehind, hrun, hkept]
      simp
    refine ⟨?_, fun rest hend => ?_⟩
    · cases hfull : fullName owner name with
      | nil => exact absurd (fullName_eq_nil hfull) (by simpa using hne)
      | cons c full =>
          refine ⟨c, by rw [hwritten, hfull]; rfl, hchars c (hfull ▸ List.mem_cons_self)⟩
    · rw [hwritten]
      exact .value ((Bare.of_all hchars (by decide) (by decide)).append (bare_of_isSpace hblank))
        (fun c hc => isBlank_of_isSpace (hblank' c hc)) hquote hnot hend

theorem atTagEnd_eq_ok {b : Bool} (h : atTagEnd s = .ok (b, t)) : t = s := by
  unfold atTagEnd at h
  rw [bind_remaining_apply] at h
  generalize s.rest = rest at h
  split at h <;> exact (pure_eq_ok.mp h).2.symm

theorem givens_eq_ok {rules : List AttributeRule} {fuel : Nat} {bound : Scope} {r : List Given × Scope}
    (h : givens rules fuel bound s = .ok (r, t)) :
    (∀ rest, TagEnd t.rest rest → TagEnd s.rest rest) ∧
      (t.rest = s.rest ∨ ∃ c, s.rest.head? = some c ∧ isNameChar c = true) := by
  induction fuel generalizing s bound r with
  | zero =>
      rw [(pure_eq_ok.mp h).2]
      exact ⟨fun _ hend => hend, .inl rfl⟩
  | succ fuel ih =>
      rw [givens] at h
      obtain ⟨b, m, hend, hmore⟩ := bind_eq_ok.mp h
      rw [atTagEnd_eq_ok hend] at hmore
      clear h
      split at hmore
      next =>
        rw [(pure_eq_ok.mp hmore).2]
        exact ⟨fun _ hend => hend, .inl rfl⟩
      next =>
        obtain ⟨g, m₁, hgiven, h⟩ := bind_eq_ok.mp hmore
        obtain ⟨bound', m₂, hbind, h⟩ := bind_eq_ok.mp h
        obtain ⟨hhead, hgo⟩ := given_eq_ok hgiven
        have hkept := Keeps.bindGiven _ _ _ _ _ hbind
        rw [bind_remaining_apply] at h
        suffices hmore : ∀ rest, TagEnd t.rest rest → TagEnd m₂.rest rest by
          refine ⟨fun rest hend => hgo rest ?_, .inr hhead⟩
          rw [← hkept]
          exact hmore rest hend
        generalize hrest : m₂.rest = rest at h
        rw [← hrest]
        split at h
        next =>
          rw [(pure_eq_ok.mp h).2]
          exact fun _ hend => hend
        next =>
          rw [(pure_eq_ok.mp h).2]
          exact fun _ hend => hend
        next =>
          obtain ⟨u, m₃, hspace, h⟩ := bind_eq_ok.mp h
          obtain ⟨more, m₄, hgivens, h⟩ := bind_eq_ok.mp h
          obtain ⟨-, rfl⟩ := pure_eq_ok.mp h
          obtain ⟨-, hspaces⟩ := someSpace_eq_ok hspace
          intro rest hend
          have hbehind := (ih hgivens).1 rest hend
          rw [hspaces] at hbehind
          rw [← List.takeWhile_append_dropWhile (p := isSpace) (l := m₂.rest)]
          exact hbehind.append (bare_of_isSpace fun c => List.mem_takeWhile_imp)

/-- What the reading of a start tag goes through. -/
theorem startTag_steps {outer : Scope} {tag : Markup.Tag} {e : Open} {closed : Bool}
    (h : startTag outer s = .ok ((tag, e, closed), t)) :
    ∃ rules fuel m m₁ m₂ b given, qualifiedName (s.advance 1) = .ok ((e.owner, e.name), m) ∧ e.name ≠ [] ∧
      spaces m = .ok (b, m₁) ∧ givens rules fuel [] m₁ = .ok (given, m₂) ∧
      m₂.rest = (if closed then ['/', '>'] else ['>']) ++ t.rest ∧ tag.written = String.ofList e.fullName := by
  unfold startTag at h
  rw [bind_get_apply, bind_skip_apply] at h
  obtain ⟨⟨owner, name⟩, m, hname, h⟩ := bind_eq_ok.mp h
  dsimp only at h
  split at h
  next => exact absurd h fail_eq_ok
  next hne =>
    rw [bind_docType_apply] at h
    obtain ⟨b, m₁, hspaces, h⟩ := bind_eq_ok.mp h
    rw [bind_remaining_apply] at h
    obtain ⟨written, m₂, hgivens, h⟩ := bind_eq_ok.mp h
    obtain ⟨bound, m₃, hbound, h⟩ := bind_eq_ok.mp h
    obtain ⟨uris, m₄, huris, h⟩ := bind_eq_ok.mp h
    obtain ⟨u₁, m₅, hdistinct, h⟩ := bind_eq_ok.mp h
    obtain ⟨u₂, m₆, himplied, h⟩ := bind_eq_ok.mp h
    have hkept : m₆.rest = m₂.rest := by
      rw [Keeps.mapM (fun _ => .attributeUri _ _ _) _ _ _ _ himplied, Keeps.distinct _ _ _ _ hdistinct,
        Keeps.mapM (fun _ => .attributeUri _ _ _) _ _ _ _ huris,
        Keeps.foldlM (fun _ _ => .bindGiven _ _) _ _ _ _ _ hbound]
    have hclosing {k : State} {tag' : Markup.Tag} {e' : Open} {rules : List AttributeRule} {given : List Given}
        (h : (do
          given.forM (checkId rules)
          let closed ← accept ['/', '>']
          if closed then return (tag', e', closed)
          else
            expect ['>'] (.tagNotFinished (String.ofList name) s.line)
            return (tag', e', closed) : Reading (Markup.Tag × Open × Bool)) k = .ok ((tag, e, closed), t)) :
        tag' = tag ∧ e' = e ∧ k.rest = (if closed then ['/', '>'] else ['>']) ++ t.rest := by
      obtain ⟨u, k', hids, h⟩ := bind_eq_ok.mp h
      have hkept := Keeps.forM (fun _ => .checkId _ _) _ _ _ _ hids
      rw [← hkept]
      obtain ⟨b, k₁, hslash, h⟩ := bind_eq_ok.mp h
      cases b with
      | true =>
          obtain ⟨heq, rfl⟩ := pure_eq_ok.mp h
          cases heq
          exact ⟨rfl, rfl, accept_true hslash⟩
      | false =>
          obtain ⟨-, hsame⟩ := accept_false hslash
          rw [hsame] at h
          obtain ⟨u, k₂, hexpect, h⟩ := bind_eq_ok.mp h
          obtain ⟨heq, rfl⟩ := pure_eq_ok.mp h
          cases heq
          exact ⟨rfl, rfl, expect_eq_ok hexpect⟩
    suffices hend : tag.written = String.ofList e.fullName ∧ e.owner = owner ∧ e.name = name ∧
        m₆.rest = (if closed then ['/', '>'] else ['>']) ++ t.rest by
      obtain ⟨hwritten, rfl, rfl, hrest⟩ := hend
      exact ⟨_, _, m, m₁, m₂, b, written, hname, by simpa using hne, hspaces, hgivens, hkept ▸ hrest, hwritten⟩
    split at h
    · split at h
      · rw [bind_note_apply] at h
        obtain ⟨rfl, rfl, hrest⟩ := hclosing h
        exact ⟨rfl, rfl, rfl, hrest⟩
      · obtain ⟨rfl, rfl, hrest⟩ := hclosing h
        exact ⟨rfl, rfl, rfl, hrest⟩
    · obtain ⟨rfl, rfl, hrest⟩ := hclosing h
      exact ⟨rfl, rfl, rfl, hrest⟩

/-- A start tag ends at the first bracket outside of its values, and its name at the first character that no
name holds. -/
theorem startTag_eq_ok {outer : Scope} {tag : Markup.Tag} {e : Open} {closed : Bool} {y : List Char}
    (h : startTag outer s = .ok ((tag, e, closed), t)) (hs : s.rest = '<' :: y) :
    TagEnd y t.rest ∧ (∀ c ∈ e.fullName, isNameChar c = true) ∧
      ∃ name behind, y = name ++ behind ∧ (∀ c ∈ name, isNameChar c = true) ∧ name ≠ [] ∧
        ∀ c, behind.head? = some c → c = '>' ∨ c = '/' ∨ isBlank c = true := by
  obtain ⟨rules, fuel, m, m₁, m₂, b, given, hname, hne, hspaces, hgivens, hclose, -⟩ := startTag_steps h
  obtain ⟨hrest, hchars, hempty, hends⟩ := ran_qualifiedName hname
  rw [State.rest_advance, hs] at hrest
  obtain ⟨blanks, hblanks, hblank, hstop⟩ := spaces_eq hspaces
  obtain ⟨hgo, hhead⟩ := givens_eq_ok hgivens
  have hend : TagEnd m₂.rest t.rest := by
    rw [hclose]
    cases closed with
    | true => exact .close bare_slash _
    | false => exact .close (List.forall_mem_nil _) _
  have hbare := Bare.of_all hchars (by decide) (by decide)
  refine ⟨?_, hchars, _, m.rest, hrest, hchars, fun hnil => hne (fullName_eq_nil hnil), ?_⟩
  · rw [show y = _ from hrest, hblanks]
    exact ((hgo _ hend).append (bare_of_isSpace hblank)).append hbare
  · intro c hc
    cases blanks with
    | cons d blanks =>
        rw [hblanks] at hc
        obtain rfl : d = c := Option.some.inj hc
        exact .inr (.inr (isBlank_of_isSpace (hblank d List.mem_cons_self)))
    | nil =>
        rw [List.nil_append] at hblanks
        obtain hsame | ⟨d, hd, hchar⟩ := hhead
        · rw [hblanks, ← hsame, hclose] at hc
          cases closed with
          | true => exact .inr (.inl (Option.some.inj hc).symm)
          | false => exact .inl (Option.some.inj hc).symm
        · rw [← hblanks] at hd
          rw [hends hne d hd] at hchar
          cases hchar

theorem wrongName?_eq_ok {e : Open} {wrong : Option (List Char)} (h : wrongName? e s = .ok (wrong, t))
    (he : ∀ c ∈ e.fullName, isNameChar c = true) :
    ∃ run, s.rest = run ++ t.rest ∧ (∀ c ∈ run, isNameChar c = true) ∧ (wrong = none → run = e.fullName) := by
  unfold wrongName? at h
  rw [bind_get_apply] at h
  dsimp only at h
  obtain ⟨hwanted, h⟩ | ⟨-, h⟩ := of_ite h
  · rw [bind_set_apply] at h
    obtain ⟨-, rfl⟩ := pure_eq_ok.mp h
    obtain ⟨after, hafter⟩ := List.isPrefixOf_iff_prefix.mp (Bool.and_eq_true_iff.mp hwanted).1
    refine ⟨e.fullName, ?_, he, fun _ => rfl⟩
    dsimp only
    rw [← hafter, List.drop_left]
  · cases howner : e.owner with
    | none =>
        simp only [howner] at h
        obtain ⟨found, m, hname, h⟩ := bind_eq_ok.mp h
        obtain ⟨hwrong, rfl⟩ := pure_eq_ok.mp h
        obtain ⟨hrest, hchars⟩ := ran_name hname
        refine ⟨found, hrest, hchars, ?_⟩
        rintro rfl
        rw [Open.fullName, howner]
        simpa using hwrong
    | some wanted =>
        simp only [howner] at h
        obtain ⟨⟨owner, found⟩, m, hname, h⟩ := bind_eq_ok.mp h
        obtain ⟨hwrong, rfl⟩ := pure_eq_ok.mp h
        obtain ⟨hrest, hchars, -⟩ := ran_qualifiedName hname
        refine ⟨fullName owner found, hrest, hchars, ?_⟩
        rintro rfl
        have hsame : found = e.name ∧ owner = some wanted := by simpa using hwrong
        rw [hsame.1, hsame.2, Open.fullName, howner]
        rfl

/-- An end tag repeats the name of its element. -/
theorem endTag_text {e : Open} {u : Unit} {y : List Char} (h : endTag e s = .ok (u, t))
    (hs : s.rest = '<' :: '/' :: y) (he : ∀ c ∈ e.fullName, isNameChar c = true) :
    ∃ blanks, y = e.fullName ++ (blanks ++ '>' :: t.rest) ∧ ∀ c ∈ blanks, isSpace c = true := by
  unfold endTag at h
  rw [bind_skip_apply] at h
  obtain ⟨wrong, m, hwrong, h⟩ := bind_eq_ok.mp h
  obtain ⟨b, m₁, hspaces, h⟩ := bind_eq_ok.mp h
  obtain ⟨u', m₂, hclose, h⟩ := bind_eq_ok.mp h
  obtain ⟨run, hrest, -, hsame⟩ := wrongName?_eq_ok hwrong he
  obtain ⟨blanks, hblanks, hblank, -⟩ := spaces_eq hspaces
  rw [State.rest_advance, hs, List.drop_succ_cons, List.drop_succ_cons, List.drop_zero] at hrest
  split at h
  next =>
    refine ⟨blanks, ?_, hblank⟩
    rw [hrest, hsame rfl, hblanks, expect_eq_ok hclose, (pure_eq_ok.mp h).2]
    simp
  next => exact absurd h fail_eq_ok

/-- An end tag ends at the first bracket. -/
theorem endTag_eq_ok {e : Open} {u : Unit} {y : List Char} (h : endTag e s = .ok (u, t))
    (hs : s.rest = '<' :: '/' :: y) (he : ∀ c ∈ e.fullName, isNameChar c = true) :
    ∃ run, y = run ++ '>' :: t.rest ∧ '>' ∉ run := by
  obtain ⟨blanks, hy, hblank⟩ := endTag_text h hs he
  have hbare := (Bare.of_all he (by decide) (by decide)).append (bare_of_isSpace hblank)
  exact ⟨e.fullName ++ blanks, by rw [hy, List.append_assoc], fun hmem => (hbare _ hmem).2 rfl⟩

end Reading

end MarkupIds.Xml
