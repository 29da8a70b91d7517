import MarkupIds.Markup.Tree
import MarkupIds.Proofs.Ident.Slug
import MarkupIds.Proofs.Xml.LineEnds
import MarkupIds.Xml.Aside

/-! Slugs do not tell how the lines of a text end: the text as it is read from a document makes the same slug as
the text as it is written there. -/

namespace MarkupIds

namespace Xml

open MarkupIds.Text (isBlank nextToLetter lowerFrom SameWords)

/-- A text as it is read from a document. -/
def unified (s : List Char) : List Char := unifyLines (joinLineEnds s)

theorem unified_cons {c : Char} {s : List Char} (h : ∀ u, c = '\r' → s = '\n' :: u → False) :
    unified (c :: s) = (if c == '\r' then '\n' else c) :: unified s := by
  rw [unified, joinLineEnds.eq_2 c s h]
  rfl

theorem unified_append {s t : List Char} (h : Parts s t) : unified (s ++ t) = unified s ++ unified t := by
  rw [unified, joinLineEnds_append h, unifyLines, List.map_append]
  rfl

theorem unified_eq_nil {s : List Char} : unified s = [] ↔ s = [] := by
  constructor
  · intro h
    by_contra hne
    exact joinLineEnds_ne_nil hne (List.map_eq_nil_iff.mp h)
  · rintro rfl
    rfl

theorem isBlank_of_mem_unified {s : List Char} (h : ∀ c ∈ s, isBlank c = true) : ∀ c ∈ unified s, isBlank c = true := by
  intro c hc
  obtain ⟨d, hd, rfl⟩ := List.mem_map.mp hc
  split
  · decide
  · exact h d (mem_of_mem_joinLineEnds hd)

section Trim

open MarkupIds.Text (trim trimStart trimEnd)

theorem unified_trimStart (s : List Char) : trimStart (unified s) = unified (trimStart s) := by
  unfold trimStart
  induction s using joinLineEnds.induct with
  | case1 s ih => exact ih
  | case2 c s hs ih =>
      rw [unified_cons hs, List.dropWhile_cons]
      by_cases hc : isBlank c = true
      · have hunified : isBlank (if c == '\r' then '\n' else c) = true := by
          split
          · decide
          · exact hc
        rw [if_pos hunified, List.dropWhile_cons_of_pos hc]
        exact ih
      · have hne : (c == '\r') = false := by
          rw [beq_eq_false_iff_ne]
          rintro rfl
          exact hc (by decide)
        rw [hne, if_neg Bool.false_ne_true, if_neg hc, List.dropWhile_cons_of_neg hc, unified_cons hs, hne]
        rfl
  | case3 => rfl

theorem trimEnd_append_of_blank {behind : List Char} (h : ∀ c ∈ behind, isBlank c = true) (s : List Char) :
    trimEnd (s ++ behind) = trimEnd s := by
  unfold trimEnd
  rw [List.reverse_append, List.dropWhile_append_of_pos fun c hc => h c (List.mem_reverse.mp hc)]

theorem trimEnd_concat {c : Char} (h : isBlank c = false) (s : List Char) : trimEnd (s ++ [c]) = s ++ [c] := by
  simp [trimEnd, h]

theorem unified_trimEnd (s : List Char) : trimEnd (unified s) = unified (trimEnd s) := by
  obtain hnil | ⟨u, c, behind, hc, hbehind, rfl⟩ : (∀ c ∈ s, isBlank c = true) ∨ ∃ u c behind, isBlank c = false ∧
      (∀ d ∈ behind, isBlank d = true) ∧ s = u ++ ([c] ++ behind) := by
    induction s with
    | nil => exact .inl (List.forall_mem_nil _)
    | cons c s ih =>
        obtain hs | ⟨u, d, behind, hd, hbehind, rfl⟩ := ih
        · by_cases hc : isBlank c = true
          · exact .inl (List.forall_mem_cons.mpr ⟨hc, hs⟩)
          · exact .inr ⟨[], c, s, by simpa using hc, hs, rfl⟩
        · exact .inr ⟨c :: u, d, behind, hd, hbehind, rfl⟩
  · have hend := trimEnd_append_of_blank hnil []
    have hunified := trimEnd_append_of_blank (isBlank_of_mem_unified hnil) []
    rw [List.nil_append] at hend hunified
    rw [hunified, hend]
    rfl
  · have hreturn : c ≠ '\r' := by
      rintro rfl
      exact absurd hc (by decide)
    have hfeed : c ≠ '\n' := by
      rintro rfl
      exact absurd hc (by decide)
    have hone : unified [c] = [c] := by simp [unified, joinLineEnds, unifyLines, hreturn]
    have hparts : Parts [c] behind := fun _ hlast => hreturn (Option.some.inj hlast)
    have hlast : unified (u ++ [c]) = unified u ++ [c] := by
      rw [unified_append (parts_of_head hfeed u []), hone]
    have hall : unified (u ++ ([c] ++ behind)) = (unified u ++ [c]) ++ unified behind := by
      rw [List.singleton_append, unified_append (parts_of_head hfeed u behind), ← List.singleton_append,
        unified_append hparts, hone, List.append_assoc]
    rw [hall, trimEnd_append_of_blank (isBlank_of_mem_unified hbehind), trimEnd_concat hc, ← List.append_assoc,
      trimEnd_append_of_blank hbehind, trimEnd_concat hc, hlast]

theorem trim_unified (s : List Char) : trim (unified s) = unified (trim s) := by
  rw [trim, unified_trimStart, unified_trimEnd]
  rfl

theorem unified_intercalate (pieces : List (List Char)) :
    unified ([' '].intercalate pieces) = [' '].intercalate (pieces.map unified) := by
  induction pieces with
  | nil => rfl
  | cons piece pieces ih =>
      cases pieces with
      | nil => simp
      | cons piece' pieces =>
          rw [List.intercalate_cons_cons, List.map_cons, List.map_cons, List.intercalate_cons_cons, ← List.map_cons, ← ih,
            List.append_assoc, List.append_assoc, List.singleton_append, List.singleton_append,
            unified_append (parts_of_head (by decide) piece _), unified_cons fun u h => absurd h (by decide)]
          rfl

/-- The texts of an element are put together alike. -/
theorem joinTrimmed_unified (pieces : List (List Char)) :
    Markup.Node.joinTrimmed (pieces.map unified) = unified (Markup.Node.joinTrimmed pieces) := by
  have htrim : (pieces.map unified).map trim = (pieces.map trim).map unified := by
    rw [List.map_map, List.map_map]
    exact List.map_congr_left fun piece _ => trim_unified piece
  have hempty (piece : List Char) : (!(unified piece).isEmpty) = !piece.isEmpty := by
    rw [Bool.eq_iff_iff]
    simp [unified_eq_nil]
  rw [Markup.Node.joinTrimmed, htrim, List.filter_map, Markup.Node.joinTrimmed, unified_intercalate]
  refine congrArg (fun pieces => [' '].intercalate (pieces.map unified)) (List.filter_congr fun piece _ => ?_)
  exact hempty piece

end Trim

theorem nextToLetter_return (s : List Char) : nextToLetter ('\r' :: s) = false := by
  have hignorable : Text.isCaseIgnorable '\r' = false := by decide +kernel
  have hcased : Text.isCased '\r' = false := by decide +kernel
  rw [Text.nextToLetter_cons, hignorable, hcased]
  rfl

theorem nextToLetter_feed (s : List Char) : nextToLetter ('\n' :: s) = false := by
  have hignorable : Text.isCaseIgnorable '\n' = false := by decide +kernel
  have hcased : Text.isCased '\n' = false := by decide +kernel
  rw [Text.nextToLetter_cons, hignorable, hcased]
  rfl

theorem lowerFrom_return (before s : List Char) : lowerFrom before ('\r' :: s) = '\r' :: lowerFrom ('\r' :: before) s := by
  have hlower : Text.lowerChar '\r' = ['\r'] := by decide +kernel
  rw [lowerFrom, if_neg (by decide), hlower]
  rfl

theorem lowerFrom_feed (before s : List Char) : lowerFrom before ('\n' :: s) = '\n' :: lowerFrom ('\n' :: before) s := by
  have hlower : Text.lowerChar '\n' = ['\n'] := by decide +kernel
  rw [lowerFrom, if_neg (by decide), hlower]
  rfl

theorem nextToLetter_unified (s : List Char) : nextToLetter (unified s) = nextToLetter s := by
  induction s using joinLineEnds.induct with
  | case1 s ih =>
      rw [unified, joinLineEnds, unifyLines, List.map_cons, nextToLetter_return]
      exact nextToLetter_feed _
  | case2 c s hs ih =>
      rw [unified_cons hs]
      by_cases hc : c = '\r'
      · rw [hc, nextToLetter_return]
        exact nextToLetter_feed _
      · rw [if_neg (mt beq_iff_eq.mp hc), Text.nextToLetter_cons, Text.nextToLetter_cons, ih]
  | case3 => rfl

theorem cleaned_cons (c : Char) (s : List Char) :
    Slug.cleaned (c :: s) = (if Slug.isKept c then c else ' ') :: Slug.cleaned s := rfl

/-- The letters are put into lower case alike, whatever their lines end with. -/
theorem sameWords_lowerFrom {before before' : List Char} (h : nextToLetter before = nextToLetter before')
    (s : List Char) :
    SameWords (Slug.cleaned (lowerFrom before s)) (Slug.cleaned (lowerFrom before' (unified s))) := by
  have hreturn : Slug.isKept '\r' = false := Slug.isKept_of_isBlank (by decide)
  have hfeed : Slug.isKept '\n' = false := Slug.isKept_of_isBlank (by decide)
  induction s using joinLineEnds.induct generalizing before before' with
  | case1 s ih =>
      have hnext : nextToLetter ('\n' :: '\r' :: before) = nextToLetter ('\n' :: before') := by
        rw [nextToLetter_feed, nextToLetter_feed]
      have hrest := ih hnext
      have hunified : unified ('\r' :: '\n' :: s) = '\n' :: unified s := rfl
      rw [hunified, lowerFrom_return, lowerFrom_feed, lowerFrom_feed, cleaned_cons, cleaned_cons, cleaned_cons, hreturn,
        hfeed]
      exact hrest.widen (by decide) (by decide)
  | case2 c s hs ih =>
      rw [unified_cons hs]
      by_cases hc : c = '\r'
      · subst hc
        have hnext : nextToLetter ('\r' :: before) = nextToLetter ('\n' :: before') := by
          rw [nextToLetter_return, nextToLetter_feed]
        have hrest := ih hnext
        rw [if_pos (beq_self_eq_true _), lowerFrom_return, lowerFrom_feed, cleaned_cons, cleaned_cons, hreturn, hfeed]
        exact hrest.cons ' '
      · have hnext : nextToLetter (c :: before) = nextToLetter (c :: before') := by
          rw [Text.nextToLetter_cons, Text.nextToLetter_cons, h]
        have hrest := ih hnext
        rw [if_neg (mt beq_iff_eq.mp hc), lowerFrom, lowerFrom, Text.endsWord_eq, Text.endsWord_eq, h,
          nextToLetter_unified, Slug.cleaned_append, Slug.cleaned_append]
        exact hrest.append _
  | case3 => exact .refl []

theorem ofText_unified (s : List Char) : Slug.ofText (unified s) = Slug.ofText s := by
  have hwords := (sameWords_lowerFrom rfl s : SameWords (Slug.cleaned (lowerFrom [] s)) _).words
  rw [Slug.ofText, Slug.ofText, Slug.words_cleaned_trim, Slug.words_cleaned_trim, Text.lower, Text.lower, hwords]

end Xml

end MarkupIds
