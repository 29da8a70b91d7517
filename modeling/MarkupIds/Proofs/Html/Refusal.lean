import MarkupIds.Html.Tree
import MarkupIds.Proofs.Html.Attributes

/-! What no HTML is read of: a marked section without a known name, or a decimal reference with more digits than a
number may have. -/

namespace MarkupIds.Html

open MarkupIds.Text (isBlank cutAt)

/-- A decimal reference stands in the text that has more digits than a number may have. -/
def HasLongNumber (s : List Char) : Prop :=
  ∃ digits, Text.digitLimit < digits.length ∧ digits.all Text.isDigit = true ∧ '&' :: '#' :: digits <:+: s

namespace HasLongNumber

variable {s : List Char}

theorem of_isInfix {t : List Char} (h : HasLongNumber t) (hwithin : t <:+: s) : HasLongNumber s := by
  obtain ⟨digits, hlong, hdigits, hthere⟩ := h
  exact ⟨digits, hlong, hdigits, hthere.trans hwithin⟩

/-- A sign in front makes no difference. -/
theorem of_sign (h : HasLongNumber ('=' :: s)) : HasLongNumber s := by
  obtain ⟨digits, hlong, hdigits, hthere⟩ := h
  obtain hfront | hthere := List.infix_cons_iff.mp hthere
  · exact absurd (List.cons_prefix_cons.mp hfront).1 (by decide)
  · exact ⟨digits, hlong, hdigits, hthere⟩

theorem of_overlong? {n : Nat} (h : overlong? s = some n) : HasLongNumber s := by
  fun_induction overlong? s with
  | case1 => cases h
  | case2 s count hlong =>
      refine ⟨s.takeWhile Text.isDigit, hlong, List.all_takeWhile, List.IsPrefix.isInfix ?_⟩
      exact List.cons_prefix_cons.mpr ⟨rfl, List.cons_prefix_cons.mpr ⟨rfl, List.takeWhile_prefix _⟩⟩
  | case3 s count hshort ih => exact (ih h).of_isInfix ((List.suffix_cons _ _).trans (List.suffix_cons _ _)).isInfix
  | case4 c s hother ih => exact (ih h).of_isInfix (List.suffix_cons c s).isInfix

end HasLongNumber

section Values

variable {s value rest : List Char}

theorem bareValue_start (s : List Char) : (bareValue s).1 <+: s := by
  rw [bareValue, List.span_eq_takeWhile_dropWhile]
  exact List.takeWhile_prefix _

theorem hasLongNumber_of_unclosedValue {signs : Nat} {blanks : List Char}
    (h : unclosedValue signs blanks s = some (value, rest)) (hvalue : HasLongNumber value) : HasLongNumber s := by
  unfold unclosedValue at h
  split at h
  next =>
    cases h
    exact hvalue.of_isInfix (List.nil_infix)
  next =>
    split at h
    next =>
      cases h
      exact hvalue.of_sign.of_isInfix (bareValue_start s).isInfix
    next => cases h

theorem hasLongNumber_of_valueAfter {signs : Nat} {blanks : List Char}
    (h : valueAfter signs blanks s = some (value, rest)) (hvalue : HasLongNumber value) : HasLongNumber s := by
  have hquoted {q : Char} {r : List Char}
      (hq : (cutAt [q] r).orElse (fun _ => unclosedValue signs blanks (q :: r)) = some (value, rest)) :
      HasLongNumber (q :: r) := by
    cases hcut : cutAt [q] r with
    | some found =>
        rw [hcut] at hq
        cases hq
        refine hvalue.of_isInfix (List.IsInfix.trans ?_ (List.suffix_cons q r).isInfix)
        rw [Text.cutAt_eq_some hcut]
        exact (List.prefix_append _ _).isInfix
    | none =>
        rw [hcut] at hq
        exact hasLongNumber_of_unclosedValue hq hvalue
  unfold valueAfter at h
  split at h
  · exact hquoted h
  · exact hquoted h
  · obtain rfl : (bareValue s).1 = value := congrArg Prod.fst (Option.some.inj h)
    exact hvalue.of_isInfix (bareValue_start s).isInfix

theorem hasLongNumber_of_attributeValue? (h : attributeValue? s = some (value, rest)) (hvalue : HasLongNumber value) :
    HasLongNumber s := by
  unfold attributeValue? at h
  split at h
  next r hr =>
    simp only [List.span_eq_takeWhile_dropWhile] at h
    have hbehind := hasLongNumber_of_valueAfter h hvalue
    have hsigns : ((('=' :: r).dropWhile (· == '=')).dropWhile isBlank) <:+ '=' :: r :=
      (List.dropWhile_suffix _).trans (List.dropWhile_suffix _)
    exact hbehind.of_isInfix (hsigns.trans (hr ▸ List.dropWhile_suffix _)).isInfix
  next => cases h

theorem hasLongNumber_of_attributeAt {c : Char} (h : HasLongNumber (attributeAt c s).1.2) : HasLongNumber s := by
  unfold attributeAt at h
  rw [List.span_eq_takeWhile_dropWhile] at h
  dsimp only at h
  cases hvalue : attributeValue? (s.dropWhile isAttributeNameChar) with
  | none =>
      rw [hvalue] at h
      exact h.of_isInfix (List.nil_infix)
  | some found =>
      rw [hvalue] at h
      exact (hasLongNumber_of_attributeValue? hvalue h).of_isInfix (List.dropWhile_suffix _).isInfix

/-- The values of attributes stand in the text of their tag. -/
theorem hasLongNumber_of_mem_attributesFrom {fuel : Nat} {before : Char} {a : String × List Char}
    (ha : a ∈ (attributesFrom fuel before s).1) (h : HasLongNumber a.2) : HasLongNumber s := by
  induction fuel generalizing before s with
  | zero => cases ha
  | succ fuel ih =>
      cases s with
      | nil => cases ha
      | cons c r =>
          rw [attributesFrom] at ha
          split at ha
          next =>
            obtain rfl | hothers := List.mem_cons.mp ha
            · exact (hasLongNumber_of_attributeAt h).of_isInfix (List.suffix_cons c r).isInfix
            · refine (ih hothers).of_isInfix ?_
              exact ((skipGap_suffix _).trans ((attributeAt_suffix c r).trans (List.suffix_cons c r))).isInfix
          next => cases ha

end Values

/-- Why a text is refused. -/
def IsRefusable (s : List Char) : Prop := ['<', '!', '['] <:+: s ∨ HasLongNumber s

theorem IsRefusable.of_isInfix {s t : List Char} (h : IsRefusable t) (hwithin : t <:+: s) : IsRefusable s :=
  h.imp (·.trans hwithin) (·.of_isInfix hwithin)

section Refused

variable {s : List Char} {r : Refusal}

theorem readSpecial_ne_refused {kind : Markup.TextKind} {skip : Nat} {close : List Char → Option (List Char)} :
    readSpecial kind skip close s ≠ .refused r := by
  unfold readSpecial
  split <;> exact Reading.noConfusion

theorem readClosing_ne_refused : readClosing s ≠ .refused r := by
  unfold readClosing
  split
  next => exact Reading.noConfusion
  next =>
    dsimp only
    split
    next => exact Reading.noConfusion
    next =>
      split
      next => exact Reading.noConfusion
      next =>
        split
        next => exact Reading.noConfusion
        next => exact readSpecial_ne_refused
      next => exact Reading.noConfusion

theorem expanded_refused {written : List (String × List Char)} {tokens : List (String × String) → List Token}
    {count : Nat} (h : expanded written tokens count = .refused r) : ∃ a ∈ written, HasLongNumber a.2 := by
  unfold expanded at h
  split at h
  next digits hfound =>
    obtain ⟨a, ha, hlong⟩ := List.exists_of_findSome?_eq_some hfound
    exact ⟨a, ha, .of_overlong? hlong⟩
  next => cases h

theorem readOpening_refused (h : readOpening s = .refused r) : HasLongNumber s := by
  have hattributes {fuel : Nat} {before : Char}
      (h : ∃ a ∈ (attributesFrom fuel before (skipGap ((s.drop 1).span isNameChar).2)).1, HasLongNumber a.2) :
      HasLongNumber s := by
    obtain ⟨a, ha, hlong⟩ := h
    refine (hasLongNumber_of_mem_attributesFrom ha hlong).of_isInfix ((skipGap_suffix _).trans ?_).isInfix
    rw [List.span_eq_takeWhile_dropWhile]
    exact (List.dropWhile_suffix _).trans (List.drop_suffix 1 s)
  unfold readOpening at h
  dsimp only at h
  split at h
  next => exact hattributes (expanded_refused h)
  next => exact hattributes (expanded_refused h)
  next => cases h
  next =>
    split at h
    next => cases h
    next => exact hattributes (expanded_refused h)

theorem readMarkup_refused (h : readMarkup s = .refused r) : IsRefusable s := by
  unfold readMarkup at h
  split at h
  next => exact absurd h readClosing_ne_refused
  next => exact absurd h readSpecial_ne_refused
  next => exact absurd h readSpecial_ne_refused
  next =>
    unfold readDeclaration at h
    split at h
    next rest hrest => exact .inl (List.IsPrefix.isInfix ⟨rest, (Text.after?_eq_some_iff.mp hrest).symm⟩)
    next =>
      split at h
      next => split at h <;> cases h
      next => exact absurd h readSpecial_ne_refused
  next =>
    split at h
    next => exact .inr (readOpening_refused h)
    next => cases h
  next => cases h

theorem digits_of_numeral? {skip base skip' base' : Nat} {isOfBase : Char → Bool} {digits : List Char}
    (h : numeral? skip base isOfBase s = some (skip', base', digits)) : base' = base ∧ digits = s.takeWhile isOfBase := by
  unfold numeral? at h
  dsimp only at h
  split at h
  next =>
    split at h
    next => cases h
    next =>
      cases h
      exact ⟨rfl, rfl⟩
  next => cases h

/-- Digits to the base of ten stand right behind the sign. -/
theorem digits_of_textNumber? {skip : Nat} {digits : List Char} (h : textNumber? s = some (skip, 10, digits)) :
    digits = s.takeWhile Text.isDigit := by
  unfold textNumber? at h
  split at h
  next => exact absurd (digits_of_numeral? h).1 (by decide)
  next => exact absurd (digits_of_numeral? h).1 (by decide)
  next => exact (digits_of_numeral? h).2

theorem atAmpersand_refused {lastPass : Bool} (h : atAmpersand lastPass ('&' :: s) = .refused r) :
    HasLongNumber ('&' :: s) := by
  unfold atAmpersand at h
  split at h
  next rest hrest =>
    obtain rfl : s = '#' :: rest := hrest
    split at h
    next skip base digits hnumber =>
      split at h
      next hlong =>
        obtain ⟨hbase, hlong⟩ := Bool.and_eq_true_iff.mp hlong
        obtain rfl : base = 10 := beq_iff_eq.mp hbase
        obtain rfl := digits_of_textNumber? hnumber
        refine ⟨_, of_decide_eq_true hlong, List.all_takeWhile, List.IsPrefix.isInfix ?_⟩
        exact List.cons_prefix_cons.mpr ⟨rfl, List.cons_prefix_cons.mpr ⟨rfl, List.takeWhile_prefix _⟩⟩
      next => cases h
    next => split at h <;> cases h
  next =>
    split at h
    next => cases h
    next => repeat' first | cases h | split at h

theorem findingAt_refused {lastPass : Bool} {raw : Option String}
    (h : findingAt lastPass raw s = .refused r) : IsRefusable s := by
  unfold findingAt at h
  split at h
  next =>
    unfold inContent at h
    split at h
    next => cases h
    next =>
      unfold atBracket at h
      split at h
      next => cases h
      next hrefused =>
        cases h
        exact readMarkup_refused hrefused
      next => split at h <;> cases h
    next => exact .inr (atAmpersand_refused h)
    next => cases h
  next =>
    unfold inRaw at h
    split at h <;> cases h

theorem scanFrom_error {fuel : Nat} {lastPass : Bool} {raw : Option String} {p : Text.Position}
    (h : scanFrom fuel lastPass raw p s = .error r) : IsRefusable s := by
  induction fuel generalizing lastPass raw p s with
  | zero => cases h
  | succ fuel ih =>
      have hrest {lastPass raw p count} {tokens : List (Text.Position × Token)}
          (h : (scanFrom fuel lastPass raw p (s.drop count)).map (fun rest => tokens ++ rest) = .error r) :
          IsRefusable s := by
        cases hscan : scanFrom fuel lastPass raw p (s.drop count) with
        | ok rest =>
            rw [hscan] at h
            cases h
        | error r' =>
            rw [hscan] at h
            cases h
            exact (ih hscan).of_isInfix (List.drop_suffix count s).isInfix
      unfold scanFrom at h
      split at h
      next hrefused =>
        cases h
        exact findingAt_refused hrefused
      next => exact hrest h
      next =>
        split at h
        next => cases h
        next => exact hrest h

/-- Only such texts are refused. -/
theorem isRefusable_of_parse {source : List Char} (h : parse source = .error r) : IsRefusable source := by
  unfold parse at h
  cases hscan : scan source with
  | ok tokens =>
      rw [hscan] at h
      cases h
  | error r' => exact scanFrom_error hscan

end Refused

end MarkupIds.Html
