import MarkupIds.Proofs.Jsx.Gaps
import MarkupIds.Proofs.Text.Cut

/-! What the grammar asks of a text ahead of it, apart from its patterns: whether a statement ends here, whether a name
is a reserved word, whether a question mark starts a choice. A few characters decide that, whatever follows them. -/

namespace MarkupIds.Jsx

open Grammar (Pattern)

/-- The text tells what stands there, whatever follows: behind white space a word and its end, or a sign. -/
def isTelling (s : List Char) : Bool :=
  match s.dropWhile isSpace with
  | [] => false
  | c :: rest =>
    if isNameChar c then !(rest.dropWhile isNameChar).isEmpty
    else if "/+-!.".toList.contains c then
      match rest with
      | [] => false
      | d :: _ => !(c == '/' && (d == '/' || d == '*'))
    else true

section Foreseen

/-- The property of what is left is decided by a text that tells what stands there. -/
def Foresees (p : List Char → Bool) : Prop :=
  ∀ known more, isTelling known = true → p (known ++ more) = p known

/-- A name that is none of some words. -/
def isUnreserved (words : List String) (s : List Char) : Bool :=
  !words.contains (String.ofList (s.takeWhile isNameChar))

/-- What follows the question mark of a choice. -/
def isChoice (s : List Char) : Bool :=
  match s with
  | '?' :: _ => false
  | '.' :: c :: _ => c.isDigit
  | '.' :: _ => false
  | s =>
    match s.dropWhile isSpace with
    | c :: _ => !(c == ':' || c == ')' || c == ',')
    | [] => true

theorem isNameChar_of_isSpace {c : Char} (h : isSpace c = true) : isNameChar c = false := by
  simp [isNameChar, h]

variable {known : List Char}

/-- A text that tells what stands there goes on behind white space with a sign or a word, and is no comment. -/
theorem exists_of_isTelling (h : isTelling known = true) :
    ∃ blanks c rest, known = blanks ++ c :: rest ∧ (∀ d ∈ blanks, isSpace d = true) ∧ isSpace c = false ∧
      (isNameChar c = true → ∃ d ∈ rest, isNameChar d = false) ∧
      (c ∈ "/+-!.".toList → ∃ d more, rest = d :: more ∧ ¬(c = '/' ∧ (d = '/' ∨ d = '*'))) := by
  unfold isTelling at h
  split at h
  next => cases h
  next c rest hrest =>
    have hc : isSpace c = false := by
      have := List.head?_dropWhile_not isSpace known
      rw [hrest] at this
      simpa using this
    refine ⟨known.takeWhile isSpace, c, rest, ?_, fun d => List.mem_takeWhile_imp, hc, ?_, ?_⟩
    · rw [← hrest, List.takeWhile_append_dropWhile]
    · intro hname
      rw [if_pos hname] at h
      by_contra hnone
      have hall : ∀ d ∈ rest, isNameChar d = true := by
        intro d hd
        by_contra hd'
        exact hnone ⟨d, hd, Bool.eq_false_iff.mpr hd'⟩
      rw [List.dropWhile_eq_nil_iff.mpr hall] at h
      cases h
    · intro hsign
      have hnot : ¬ isNameChar c = true := by
        revert hsign
        simp only [show "/+-!.".toList = ['/', '+', '-', '!', '.'] from rfl, List.mem_cons, List.not_mem_nil, or_false]
        rintro (rfl | rfl | rfl | rfl | rfl) <;> decide
      rw [if_neg hnot, if_pos (List.contains_iff_mem.mpr hsign)] at h
      split at h
      next => cases h
      next d more =>
        refine ⟨d, more, rfl, ?_⟩
        rintro ⟨rfl, rfl | rfl⟩ <;> cases h

theorem exists_not_isNameChar (h : isTelling known = true) : ∃ d ∈ known, isNameChar d = false := by
  obtain ⟨blanks, c, rest, rfl, hblanks, -, hname, -⟩ := exists_of_isTelling h
  cases hc : isNameChar c with
  | false => exact ⟨c, List.mem_append_right _ List.mem_cons_self, hc⟩
  | true =>
      obtain ⟨d, hd, hnot⟩ := hname hc
      exact ⟨d, List.mem_append_right _ (List.mem_cons_of_mem _ hd), hnot⟩

theorem foresees_isUnreserved (words : List String) : Foresees (isUnreserved words) := by
  intro known more h
  obtain ⟨d, hd, hnot⟩ := exists_not_isNameChar h
  unfold isUnreserved
  rw [Text.takeWhile_append_of_mem hd hnot]

theorem isChoice_cons {c : Char} (hquestion : c ≠ '?') (hpoint : c ≠ '.') (s : List Char) : isChoice (c :: s) =
    match (c :: s).dropWhile isSpace with
      | d :: _ => !(d == ':' || d == ')' || d == ',')
      | [] => true := by
  unfold isChoice
  split <;> simp_all

theorem foresees_isChoice : Foresees isChoice := by
  intro known more h
  obtain ⟨blanks, c, rest, rfl, hblanks, hc, -, hsign⟩ := exists_of_isTelling h
  have hdrop (u : List Char) : (blanks ++ c :: u).dropWhile isSpace = c :: u := by
    rw [List.dropWhile_append_of_pos hblanks, List.dropWhile_cons_of_neg (by rw [hc]; decide)]
  rw [List.append_assoc, List.cons_append]
  cases blanks with
  | nil =>
      by_cases hquestion : c = '?'
      · subst hquestion
        rfl
      by_cases hpoint : c = '.'
      · subst hpoint
        obtain ⟨d, further, rfl, -⟩ := hsign (by decide)
        rfl
      · rw [List.nil_append, List.nil_append, isChoice_cons hquestion hpoint, isChoice_cons hquestion hpoint]
        simp only [List.nil_append] at hdrop
        rw [hdrop, hdrop]
  | cons d blanks =>
      have hd := hblanks d List.mem_cons_self
      have hquestion : d ≠ '?' := by rintro rfl; revert hd; decide
      have hpoint : d ≠ '.' := by rintro rfl; revert hd; decide
      simp only [List.cons_append] at hdrop
      rw [List.cons_append, List.cons_append, isChoice_cons hquestion hpoint, isChoice_cons hquestion hpoint, hdrop,
        hdrop]

/-- Whether a text starts with a word is told by a piece that holds more than names. -/
theorem startsWithWord_append {w : String} (hw : w.toList.all isNameChar = true)
    (h : ∃ d ∈ known, isNameChar d = false) (more : List Char) :
    startsWithWord w (known ++ more) = startsWithWord w known := by
  obtain ⟨d, hd, hnot⟩ := h
  unfold startsWithWord
  by_cases hprefix : w.toList <+: known
  · obtain ⟨rest, rfl⟩ := hprefix
    have hrest : d ∈ rest := by
      refine (List.mem_append.mp hd).resolve_left fun hmem => ?_
      rw [List.all_eq_true.mp hw d hmem] at hnot
      cases hnot
    have hlength : w.length = w.toList.length := String.length_toList.symm
    rw [List.append_assoc, hlength, List.drop_left, List.drop_left,
      List.isPrefixOf_iff_prefix.mpr (List.prefix_append _ _), List.isPrefixOf_iff_prefix.mpr (List.prefix_append _ _)]
    cases rest with
    | nil => cases hrest
    | cons e rest => rfl
  · have hlonger : ¬ w.toList <+: known ++ more := by
      intro hlong
      rcases List.prefix_or_prefix_of_prefix hlong (List.prefix_append known more) with hpre | hpre
      · exact hprefix hpre
      · rw [List.all_eq_true.mp hw d (hpre.mem hd)] at hnot
        cases hnot
    rw [Bool.eq_false_iff.mpr fun h => hprefix (List.isPrefixOf_iff_prefix.mp h),
      Bool.eq_false_iff.mpr fun h => hlonger (List.isPrefixOf_iff_prefix.mp h)]
    rfl

/-- A sign, or the start of a word, is no comment. -/
def IsPlainly (c : Char) (rest : List Char) : Prop := c = '/' → ∃ d more, rest = d :: more ∧ ¬(d = '/' ∨ d = '*')

theorem afterComments_eq {isBlank : Char → Bool} {s rest : List Char} {c : Char} (h : s.dropWhile isBlank = c :: rest)
    (hplainly : IsPlainly c rest) : afterComments isBlank s.length s = c :: rest := by
  cases s with
  | nil => cases h
  | cons d s =>
      rw [List.length_cons, afterComments, h]
      split
      next r hr =>
        obtain ⟨rfl, rfl⟩ := List.cons.inj hr
        obtain ⟨d, more, hmore, hnot⟩ := hplainly rfl
        cases hmore
        exact absurd (.inl rfl) hnot
      next r hr =>
        obtain ⟨rfl, rfl⟩ := List.cons.inj hr
        obtain ⟨d, more, hmore, hnot⟩ := hplainly rfl
        cases hmore
        exact absurd (.inr rfl) hnot
      next => rfl

theorem mayStart_cons {c : Char} (hplus : c ≠ '+') (hminus : c ≠ '-') (hnot : c ≠ '!') (s : List Char) :
    mayStart (c :: s) = if "`,.;*%><=?^|&/:".toList.contains c then false
      else !(startsWithWord "in" (c :: s) || startsWithWord "instanceof" (c :: s)) := by
  unfold mayStart
  split <;> simp_all

theorem mayStart_append {c : Char} {rest : List Char} (hname : isNameChar c = true → ∃ d ∈ rest, isNameChar d = false)
    (hsign : c ∈ "/+-!.".toList → ∃ d more, rest = d :: more) (more : List Char) :
    mayStart (c :: (rest ++ more)) = mayStart (c :: rest) := by
  by_cases hplus : c = '+'
  · subst hplus
    obtain ⟨d, further, rfl⟩ := hsign (by decide)
    rfl
  by_cases hminus : c = '-'
  · subst hminus
    obtain ⟨d, further, rfl⟩ := hsign (by decide)
    rfl
  by_cases hnot : c = '!'
  · subst hnot
    obtain ⟨d, further, rfl⟩ := hsign (by decide)
    rfl
  · have hexists : ∃ d ∈ c :: rest, isNameChar d = false := by
      cases hc : isNameChar c with
      | false => exact ⟨c, List.mem_cons_self, hc⟩
      | true =>
          obtain ⟨d, hd, hd'⟩ := hname hc
          exact ⟨d, List.mem_cons_of_mem _ hd, hd'⟩
    rw [mayStart_cons hplus hminus hnot, mayStart_cons hplus hminus hnot, ← List.cons_append,
      startsWithWord_append (by decide) hexists, startsWithWord_append (by decide) hexists]

theorem endsHere_eq {s rest : List Char} {c : Char}
    (h : s.dropWhile (fun c => isSpace c && c != '\n') = c :: rest) (hplainly : IsPlainly c rest) :
    endsHere s = if c = '\x7d' then true
      else if c = '\n' then mayStart (afterComments isSpace rest.length rest) else false := by
  unfold endsHere
  simp only [afterComments_eq h hplainly]
  split <;> simp_all

theorem foresees_endsHere : Foresees endsHere := by
  intro known more h
  obtain ⟨blanks, c, rest, rfl, hblanks, hc, hname, hsign⟩ := exists_of_isTelling h
  have hplainly (u : List Char) : IsPlainly c (rest ++ u) := by
    rintro rfl
    obtain ⟨d, further, rfl, hnot⟩ := hsign (by decide)
    exact ⟨d, further ++ u, rfl, fun hd => hnot ⟨rfl, hd⟩⟩
  have hline : c ≠ '\n' := by
    rintro rfl
    revert hc
    decide
  suffices hends : ∃ ends : Bool, ∀ u, endsHere (blanks ++ c :: (rest ++ u)) =
      if ends then mayStart (c :: (rest ++ u)) else decide (c = '\x7d') by
    obtain ⟨ends, hends⟩ := hends
    have hknown := hends []
    rw [List.append_nil] at hknown
    rw [List.append_assoc, List.cons_append, hends, hknown,
      mayStart_append hname (fun hmem => (hsign hmem).imp fun d hd => hd.imp fun more hmore => hmore.1)]
  have hsplit := (List.takeWhile_append_dropWhile (p := fun d => isSpace d && d != '\n') (l := blanks)).symm
  have hbefore : ∀ d ∈ blanks.takeWhile fun d => isSpace d && d != '\n', (isSpace d && d != '\n') = true :=
    fun d => List.mem_takeWhile_imp
  cases hbehind : blanks.dropWhile fun d => isSpace d && d != '\n' with
  | nil =>
      refine ⟨false, fun u => ?_⟩
      have hdrop : (blanks ++ c :: (rest ++ u)).dropWhile (fun d => isSpace d && d != '\n') = c :: (rest ++ u) := by
        rw [List.dropWhile_append_of_pos (List.dropWhile_eq_nil_iff.mp hbehind),
          List.dropWhile_cons_of_neg (by simp [hc])]
      rw [endsHere_eq hdrop (hplainly u), if_neg hline]
      by_cases hbrace : c = '\x7d' <;> simp [hbrace]
  | cons d behind =>
      have hd : d = '\n' := by
        have hnot := List.head?_dropWhile_not (fun d => isSpace d && d != '\n') blanks
        rw [hbehind] at hnot
        have hspace := hblanks d (by rw [hsplit, hbehind]; exact List.mem_append_right _ List.mem_cons_self)
        simpa [hspace] using hnot
      subst hd
      refine ⟨true, fun u => ?_⟩
      have hdrop : (blanks ++ c :: (rest ++ u)).dropWhile (fun d => isSpace d && d != '\n') =
          '\n' :: (behind ++ c :: (rest ++ u)) := by
        rw [hsplit, hbehind, List.append_assoc, List.dropWhile_append_of_pos hbefore]
        exact List.dropWhile_cons_of_neg (by decide)
      have hrest : (behind ++ c :: (rest ++ u)).dropWhile isSpace = c :: (rest ++ u) := by
        rw [List.dropWhile_append_of_pos, List.dropWhile_cons_of_neg (by rw [hc]; decide)]
        intro e he
        refine hblanks e ?_
        rw [hsplit, hbehind]
        exact List.mem_append_right _ (List.mem_cons_of_mem _ he)
      rw [endsHere_eq hdrop (fun hcontra => absurd hcontra (by decide)), if_neg (by decide), if_pos rfl,
        afterComments_eq hrest (hplainly u)]
      rfl


/-- The properties that a pattern asks of what is left. -/
def givens : Part → List (List Char → Bool)
  | .seq a b => givens a ++ givens b
  | .alt a b => givens a ++ givens b
  | .many a => givens a
  | .unless a => givens a
  | .given p => [p]
  | .token _ a => givens a
  | .branch _ a => givens a
  | _ => []

/-- The patterns of the start tags in a pattern. -/
def startTags : Part → List Part
  | .seq a b => startTags a ++ startTags b
  | .alt a b => startTags a ++ startTags b
  | .many a => startTags a
  | .unless a => startTags a
  | .token _ a => startTags a
  | .branch kind a => (if kind = .opening then [a] else []) ++ startTags a
  | _ => []

/-- The properties that a rule asks of what is left. -/
def givensOf : Rule → List (List Char → Bool)
  | .statement => List.replicate 14 endsHere ++ [isUnreserved (statementWords ++ operandWords), endsHere]
  | .declaration => [endsHere, isUnreserved ["extends", "implements"]] ++ List.replicate 6 endsHere
  | .expression | .plainExpression => [isChoice]
  | .operand | .plainOperand =>
    [endsHere, isUnreserved operandWords, isUnreserved operandWords, isUnreserved ["extends", "implements"],
     isUnreserved ["extends", "implements"], isUnreserved operandWords, isUnreserved operandWords]
  | .objectType => [endsHere, endsHere]
  | .classBody => List.replicate 4 endsHere
  | _ => []

theorem givens_grammar (r : Rule) : givens (grammar r) = givensOf r := by
  cases r <;> rfl

theorem startTags_grammar (r : Rule) : startTags (grammar r) = if r = .element then [openingParts] else [] := by
  cases r <;> rfl

end Foreseen

/-- The properties that the pattern asks of what is left are foreseen, and the start tags in it are those of elements. -/
structure Known (a : Part) : Prop where
  foreseen : ∀ p ∈ givens a, Foresees p
  starts : ∀ b ∈ startTags a, b = openingParts

theorem known_grammar (r : Rule) : Known (grammar r) where
  foreseen := by
    rw [givens_grammar]
    cases r <;> simp only [givensOf, List.forall_mem_append, List.forall_mem_cons, List.forall_mem_replicate,
      foresees_isUnreserved, foresees_endsHere, foresees_isChoice, or_true, List.not_mem_nil, false_imp_iff,
      implies_true, and_self]
  starts := by
    rw [startTags_grammar]
    split
    · exact fun b hb => List.mem_singleton.mp hb
    · exact nofun

namespace Known

variable {a b : Part}

theorem seq (h : Known (.seq a b)) : Known a ∧ Known b := by
  obtain ⟨hforeseen, hstarts⟩ := h
  obtain ⟨hfa, hfb⟩ := List.forall_mem_append.mp hforeseen
  obtain ⟨hsa, hsb⟩ := List.forall_mem_append.mp hstarts
  exact ⟨⟨hfa, hsa⟩, hfb, hsb⟩

theorem alt (h : Known (.alt a b)) : Known a ∧ Known b := by
  obtain ⟨hforeseen, hstarts⟩ := h
  obtain ⟨hfa, hfb⟩ := List.forall_mem_append.mp hforeseen
  obtain ⟨hsa, hsb⟩ := List.forall_mem_append.mp hstarts
  exact ⟨⟨hfa, hsa⟩, hfb, hsb⟩

theorem many (h : Known (.many a)) : Known a := ⟨h.foreseen, h.starts⟩

theorem «unless» (h : Known (.unless a)) : Known a := ⟨h.foreseen, h.starts⟩

theorem token {kind : Kind} (h : Known (.token kind a)) : Known a := ⟨h.foreseen, h.starts⟩

theorem branch {kind : Kind} (h : Known (.branch kind a)) : Known a :=
  ⟨h.foreseen, (List.forall_mem_append.mp h.starts).2⟩

theorem opening (h : Known (.branch .opening a)) : a = openingParts := h.starts a (List.mem_append_left _ List.mem_cons_self)

theorem trivia : Known trivia := ⟨nofun, nofun⟩

theorem rule (r : Rule) : Known (rule r) :=
  ⟨fun _ hp => absurd hp List.not_mem_nil, fun _ hb => absurd hb List.not_mem_nil⟩

end Known

end MarkupIds.Jsx
