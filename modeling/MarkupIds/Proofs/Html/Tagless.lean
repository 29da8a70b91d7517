import MarkupIds.Proofs.Html.Reading

/-! Where start tags come from: a text in which none begins brings no element, in either pass. -/

namespace MarkupIds.Html

open MarkupIds.Text (Position after?)

theorem exists_of_map_eq_ok {ε α β : Type} {f : α → β} {x : Except ε α} {b : β} (h : x.map f = .ok b) :
    ∃ a, x = .ok a ∧ f a = b := by
  cases x with
  | error e => cases h
  | ok a => exact ⟨a, rfl, Except.ok.inj h⟩

section NoTags

def Token.isTag : Token → Bool
  | .opening .. => true
  | _ => false

/-- The tokens that a reading finds. -/
def Reading.tokens : Reading → List Token
  | .read tokens _ => tokens
  | _ => []

/-- The tokens that are found. -/
def Finding.tokens : Finding → List Token
  | .goOn tokens _ => tokens
  | .stop tokens _ => tokens
  | .refused _ => []

/-- No start tag is among the tokens. -/
def NoTags (tokens : List Token) : Prop := ∀ t ∈ tokens, t.isTag = false

theorem noTags_nil : NoTags [] := fun _ h => by cases h

theorem noTags_single {t : Token} (h : t.isTag = false) : NoTags [t] := fun u hu => by
  rw [List.mem_singleton.mp hu, h]

theorem noTags_readSpecial (kind : Markup.TextKind) (skip : Nat) (close : List Char → Option (List Char))
    (s : List Char) : NoTags (readSpecial kind skip close s).tokens := by
  unfold readSpecial
  split
  · exact noTags_single rfl
  · exact noTags_nil

theorem noTags_readClosing (s : List Char) : NoTags (readClosing s).tokens := by
  unfold readClosing
  split
  · exact noTags_nil
  dsimp only
  split
  · exact noTags_single rfl
  split
  · exact noTags_nil
  · split
    · exact noTags_single rfl
    · exact noTags_readSpecial _ _ _ _
  · exact noTags_nil

theorem noTags_readSection (s : List Char) : NoTags (readSection s).tokens := by
  unfold readSection
  dsimp only
  split
  · exact noTags_nil
  split
  · split
    · exact noTags_nil
    split
    · exact noTags_readSpecial _ _ _ _
    · exact noTags_nil
  · exact noTags_nil

theorem noTags_readDeclaration (s : List Char) : NoTags (readDeclaration s).tokens := by
  unfold readDeclaration
  split
  · exact noTags_readSection s
  split
  · split
    · exact noTags_single rfl
    · exact noTags_nil
  · exact noTags_readSpecial _ _ _ _

theorem noTags_readMarkup {s : List Char} (h : startsTag s = false) : NoTags (readMarkup s).tokens := by
  unfold readMarkup
  split
  · exact noTags_readClosing _
  · exact noTags_readSpecial _ _ _ _
  · exact noTags_readSpecial _ _ _ _
  · exact noTags_readDeclaration _
  next c r _ _ _ _ =>
    split
    next hletter =>
      rw [startsTag, hletter] at h
      cases h
    next => exact noTags_single rfl
  · exact noTags_nil

theorem noTags_atAmpersand (lastPass : Bool) (s : List Char) : NoTags (atAmpersand lastPass s).tokens := by
  unfold atAmpersand
  split
  · split
    · split
      · exact noTags_nil
      · exact noTags_single rfl
    · split
      · exact noTags_single rfl
      · exact noTags_nil
  · split
    · exact noTags_single rfl
    split
    · exact noTags_nil
    · split
      · exact noTags_nil
      · exact noTags_single rfl
    · split
      · exact noTags_nil
      · exact noTags_single rfl

/-- Where no start tag begins, none is found. -/
theorem noTags_findingAt {lastPass : Bool} {raw : Option String} {s : List Char}
    (h : raw = none → startsTag s = false) : NoTags (findingAt lastPass raw s).tokens := by
  cases raw with
  | some name =>
      unfold findingAt inRaw
      dsimp only
      split
      · exact noTags_nil
      · unfold rawTokens Finding.tokens
        intro t ht
        obtain ht | ht := List.mem_append.mp ht
        · split at ht
          · cases ht
          · rw [List.mem_singleton.mp ht]
            rfl
        · rw [List.mem_singleton.mp ht]
          split <;> rfl
  | none =>
      unfold findingAt inContent
      dsimp only
      split
      · exact noTags_nil
      next r =>
        have hmarkup := noTags_readMarkup (h rfl)
        unfold atBracket
        split
        next hread =>
          rw [hread] at hmarkup
          exact hmarkup
        next => exact noTags_nil
        next =>
          split
          · exact noTags_single rfl
          · exact noTags_nil
      · exact noTags_atAmpersand _ _
      · exact noTags_single rfl

/-- No start tag begins in the text. -/
def Tagless (s : List Char) : Prop := ∀ u, u <:+ s → startsTag u = false

theorem Tagless.drop {s : List Char} (h : Tagless s) (n : Nat) : Tagless (s.drop n) :=
  fun u hu => h u (hu.trans (List.drop_suffix n s))

/-- A text in which no start tag begins brings no element. -/
theorem tagless_scanFrom {s : List Char} (h : Tagless s) {fuel : Nat} {lastPass : Bool}
    {raw : Option String} {p : Position} {tokens : List (Position × Token)}
    (hscan : scanFrom fuel lastPass raw p s = .ok tokens) : ∀ t ∈ tokens, t.2.isTag = false := by
  induction fuel generalizing lastPass raw p s tokens with
  | zero =>
      cases hscan
      exact fun t ht => by cases ht
  | succ fuel ih =>
      have hnone : NoTags (findingAt lastPass raw s).tokens :=
        noTags_findingAt fun _ => h s List.suffix_rfl
      have hfound {found : List Token} (hno : NoTags found) {rest : List (Position × Token)}
          (hrest : ∀ t ∈ rest, t.2.isTag = false) : ∀ t ∈ found.map (p, ·) ++ rest, t.2.isTag = false := by
        intro t ht
        obtain ht | ht := List.mem_append.mp ht
        · obtain ⟨u, hu, rfl⟩ := List.mem_map.mp ht
          exact hno u hu
        · exact hrest t ht
      rw [scanFrom] at hscan
      split at hscan
      next => cases hscan
      next found count hgo =>
        rw [hgo] at hnone
        obtain ⟨rest, hrest, rfl⟩ := exists_of_map_eq_ok hscan
        exact hfound hnone (ih (h.drop count) hrest)
      next found count hstop =>
        rw [hstop] at hnone
        dsimp only at hscan
        split at hscan
        next =>
          cases hscan
          refine hfound hnone fun t ht => ?_
          split at ht
          · rw [List.mem_singleton.mp ht]
            rfl
          · cases ht
        next =>
          obtain ⟨rest, hrest, rfl⟩ := exists_of_map_eq_ok hscan
          exact hfound hnone (ih (h.drop count) hrest)

end NoTags

end MarkupIds.Html
