import MarkupIds.Proofs.Xml.Given
import MarkupIds.Proofs.Xml.LineEnds

/-! The one character that the reader of documents takes for a part of names and the reader of tokens for
white space. A text is free of it if it stands nowhere in a tag but in the values. -/

namespace MarkupIds.Xml

open MarkupIds.Text (cutAt)

/-- What stands in a tag outside of its values, up to the bracket that ends it, and what follows the
bracket. `quote` is the one that a value has been opened with. -/
def outsideFrom (quote : Option Char) : List Char → List Char × List Char
  | [] => ([], [])
  | c :: s =>
    match quote with
    | some q => outsideFrom (if c == q then none else some q) s
    | none =>
      if c == '>' then ([], s)
      else if c == '"' || c == '\'' then outsideFrom (some c) s
      else (c :: (outsideFrom none s).1, (outsideFrom none s).2)

def inTag (s : List Char) : List Char := (outsideFrom none s).1

def behindTag (s : List Char) : List Char := (outsideFrom none s).2

/-- No tag of the text holds the ogham space mark outside of its values. Comments, instructions and sections of
character data are no tags, and neither is a document type without quotes and brackets. One that says more is shut out:
a name that it does not declare may then be declared elsewhere and is only worth a warning, which covers up the problems
before it, and which can be lost with an attribute. -/
inductive OghamFree : List Char → Prop where
  | done : OghamFree []
  | pass {c : Char} {s : List Char} : c ≠ '<' → OghamFree s → OghamFree (c :: s)
  | aside {start mark s rest : List Char} : Token.Aside start mark → EndsAt (mark ++ ['>']) s rest →
      OghamFree rest → OghamFree (start ++ s)
  | type {body rest : List Char} : (∀ c ∈ body, Token.isTypeChar c = true) → OghamFree rest →
      OghamFree ("<!DOCTYPE".toList ++ (body ++ '>' :: rest))
  | tag {c : Char} {s : List Char} : c ≠ '!' → c ≠ '?' → oghamSpace ∉ inTag (c :: s) →
      OghamFree (behindTag (c :: s)) → OghamFree ('<' :: c :: s)

section Outside

variable {s : List Char}

theorem outside_run {run : List Char} (h : ∀ c ∈ run, c ≠ '>' ∧ c ≠ '"' ∧ c ≠ '\'') :
    inTag (run ++ s) = run ++ inTag s ∧ behindTag (run ++ s) = behindTag s := by
  induction run with
  | nil => exact ⟨rfl, rfl⟩
  | cons c run ih =>
      obtain ⟨⟨hclose, hdouble, hsingle⟩, hrun⟩ := List.forall_mem_cons.mp h
      obtain ⟨hin, hbehind⟩ := ih hrun
      unfold inTag behindTag at *
      simp [outsideFrom, hclose, hdouble, hsingle, hin, hbehind]

theorem outsideFrom_value {quote : Char} {v : List Char} (h : quote ∉ v) :
    outsideFrom (some quote) (v ++ quote :: s) = outsideFrom none s := by
  induction v with
  | nil => simp [outsideFrom]
  | cons c v ih =>
      obtain ⟨hc, hv⟩ := not_or.mp (mt List.mem_cons.mpr h)
      have hne : (c == quote) = false := by simpa using Ne.symm hc
      simpa [outsideFrom, hne] using ih hv

theorem outsideFrom_quote {quote : Char} (hquote : quote = '"' ∨ quote = '\'') :
    outsideFrom none (quote :: s) = outsideFrom (some quote) s := by
  obtain rfl | rfl := hquote <;> simp [outsideFrom]

theorem outside_value {quote : Char} {v : List Char} (hquote : quote = '"' ∨ quote = '\'') (h : quote ∉ v) :
    inTag (quote :: (v ++ quote :: s)) = inTag s ∧ behindTag (quote :: (v ++ quote :: s)) = behindTag s := by
  unfold inTag behindTag
  rw [outsideFrom_quote hquote, outsideFrom_value h]
  exact ⟨rfl, rfl⟩

/-- Line ends in a tag move nothing but themselves. -/
theorem outsideFrom_joinLineEnds (quote : Option Char) (hquote : quote ≠ some '\n' ∧ quote ≠ some '\r') :
    (outsideFrom quote (joinLineEnds s)).2 = joinLineEnds (outsideFrom quote s).2 ∧
      ∀ c ∈ (outsideFrom quote (joinLineEnds s)).1, c ∈ (outsideFrom quote s).1 := by
  induction s using joinLineEnds.induct generalizing quote with
  | case1 s ih =>
      rw [joinLineEnds]
      obtain ⟨hbehind, hin⟩ := ih quote hquote
      cases quote with
      | none =>
          simp only [outsideFrom]
          exact ⟨hbehind, fun c hc => by simp at hc ⊢; tauto⟩
      | some q =>
          have hfeed : ('\n' == q) = false := by simpa using fun h => hquote.1 (congrArg some h.symm)
          have hreturn : ('\r' == q) = false := by simpa using fun h => hquote.2 (congrArg some h.symm)
          simpa [outsideFrom, hfeed, hreturn] using ⟨hbehind, hin⟩
  | case2 d s hs ih =>
      rw [joinLineEnds.eq_2 d s hs]
      cases quote with
      | none =>
          obtain ⟨hbehind, hin⟩ := ih none ⟨by simp, by simp⟩
          unfold outsideFrom
          dsimp only
          split
          · exact ⟨rfl, fun c hc => hc⟩
          split
          next hmark =>
            refine ih (some d) ⟨?_, ?_⟩ <;>
              · rintro ⟨⟩
                exact absurd hmark (by decide)
          next => exact ⟨hbehind, fun c hc => by simp only [List.mem_cons] at hc ⊢; exact hc.imp_right (hin c)⟩
      | some q =>
          unfold outsideFrom
          dsimp only
          split
          · exact ih none ⟨by simp, by simp⟩
          · exact ih (some q) hquote
  | case3 => exact ⟨rfl, fun c hc => hc⟩

end Outside

namespace OghamFree

variable {s rest : List Char}

theorem pass_run {run : List Char} (hrun : '<' ∉ run) (h : OghamFree (run ++ s)) : OghamFree s := by
  induction run with
  | nil => exact h
  | cons c run ih =>
      obtain ⟨hc, hrun⟩ := not_or.mp (mt List.mem_cons.mpr hrun)
      refine ih hrun ?_
      generalize hs : (c :: run) ++ s = u at h
      cases h with
      | done => cases hs
      | pass hne hrest =>
          obtain ⟨-, rfl⟩ := List.cons.inj hs
          exact hrest
      | aside kind hend hrest =>
          obtain ⟨start', hstart⟩ := kind.start_eq
          rw [hstart] at hs
          exact absurd (List.cons.inj hs).1.symm hc
      | type => exact absurd (List.cons.inj hs).1.symm hc
      | tag => exact absurd (List.cons.inj hs).1.symm hc

theorem of_aside {start mark : List Char} (kind : Token.Aside start mark) (hend : EndsAt (mark ++ ['>']) s rest)
    (h : OghamFree (start ++ s)) : OghamFree rest := by
  generalize hs : start ++ s = u at h
  cases h with
  | done =>
      obtain ⟨start', hstart⟩ := kind.start_eq
      rw [hstart] at hs
      cases hs
  | pass hne hrest =>
      obtain ⟨start', hstart⟩ := kind.start_eq
      rw [hstart] at hs
      exact absurd (List.cons.inj hs).1.symm hne
  | @aside start' mark' s' rest' kind' hend' hrest =>
      have hsame : mark = mark' ∧ s = s' := by
        cases kind <;> cases kind' <;> simp_all
      obtain ⟨rfl, rfl⟩ := hsame
      exact hend.unique hend' ▸ hrest
  | type => exact absurd hs (kind.ne_type _ _)
  | tag hbang hquestion =>
      obtain ⟨c, start', hstart, hc⟩ := kind.second
      rw [hstart] at hs
      obtain rfl := (List.cons.inj (List.cons.inj hs).2).1
      exact absurd hc (not_or.mpr ⟨hbang, hquestion⟩)

theorem of_tag {c : Char} (hbang : c ≠ '!') (hquestion : c ≠ '?') (h : OghamFree ('<' :: c :: s)) :
    oghamSpace ∉ inTag (c :: s) ∧ OghamFree (behindTag (c :: s)) := by
  generalize hs : '<' :: c :: s = u at h
  cases h with
  | done => cases hs
  | pass hne hrest => exact absurd (List.cons.inj hs).1.symm hne
  | aside kind hend hrest =>
      obtain ⟨d, start', hstart, hd⟩ := kind.second
      rw [hstart] at hs
      obtain rfl := (List.cons.inj (List.cons.inj hs).2).1
      exact absurd hd (not_or.mpr ⟨hbang, hquestion⟩)
  | type =>
      obtain rfl := (List.cons.inj (List.cons.inj hs).2).1
      exact absurd rfl hbang
  | tag _ _ hin hbehind =>
      cases hs
      exact ⟨hin, hbehind⟩

theorem of_type {r : List Char} (h : OghamFree ("<!DOCTYPE".toList ++ r)) : ∃ body rest, r = body ++ '>' :: rest ∧
    (∀ c ∈ body, Token.isTypeChar c = true) ∧ OghamFree rest := by
  generalize hs : "<!DOCTYPE".toList ++ r = u at h
  cases h with
  | done => cases hs
  | pass hne hrest => exact absurd (List.cons.inj hs).1.symm hne
  | aside kind hend hrest => exact absurd hs.symm (kind.ne_type _ _)
  | @type body rest hbody hrest => exact ⟨body, rest, List.append_cancel_left hs, hbody, hrest⟩
  | tag hbang => exact absurd (List.cons.inj (List.cons.inj hs).2).1.symm hbang

theorem withoutMark (h : OghamFree s) : OghamFree (withoutMark s) := by
  unfold Xml.withoutMark
  cases s with
  | nil => exact h
  | cons c s =>
      dsimp only
      split
      next hmark =>
        have hmore : OghamFree ([c] ++ s) := h
        refine hmore.pass_run fun hmem => ?_
        obtain rfl := List.mem_singleton.mp hmem
        exact absurd hmark (by decide)
      next => exact h

theorem joined (h : OghamFree s) : OghamFree (joinLineEnds s) := by
  induction h with
  | done => exact .done
  | @pass c s hc hs ih =>
      by_cases hreturn : c = '\r'
      · rw [hreturn, joinLineEnds_return]
        split
        · exact ih
        · exact .pass (by decide) ih
      · rw [joinLineEnds_cons hreturn]
        exact .pass hc ih
  | @aside start mark s rest kind hend hrest ih =>
      have hstart : ∀ c ∈ start, Text.isBlank c = false := by cases kind <;> simp [Text.isBlank]
      obtain ⟨content, hcut⟩ := hend
      rw [joinLineEnds_solid hstart]
      refine .aside kind ⟨joinLineEnds content, ?_⟩ ih
      rw [cutAt_joinLineEnds (by simp) kind.solid.2, hcut]
      rfl
  | @type body rest hbody hrest ih =>
      rw [joinLineEnds_solid Token.solid_type, joinLineEnds_append (parts_of_head (by decide) _ _), joinLineEnds_cons (by decide)]
      exact .type (fun c hc => hbody c (mem_of_mem_joinLineEnds hc)) ih
  | @tag c s hbang hquestion hin hbehind ih =>
      obtain ⟨hbehind', hin'⟩ := outsideFrom_joinLineEnds (s := c :: s) none ⟨by simp, by simp⟩
      have hhead : ∃ d u, joinLineEnds (c :: s) = d :: u ∧ d ≠ '!' ∧ d ≠ '?' := by
        by_cases hreturn : c = '\r'
        · rw [hreturn, joinLineEnds_return]
          split
          next hfeed =>
            cases s with
            | nil => cases hfeed
            | cons d s =>
                obtain rfl : d = '\n' := Option.some.inj hfeed
                exact ⟨'\n', _, joinLineEnds_cons (by decide) s, by decide, by decide⟩
          next => exact ⟨'\r', _, rfl, by decide, by decide⟩
        · exact ⟨c, _, joinLineEnds_cons hreturn s, hbang, hquestion⟩
      obtain ⟨d, u, hd, hbang', hquestion'⟩ := hhead
      rw [joinLineEnds_cons (by decide), hd]
      rw [hd] at hbehind' hin'
      refine .tag hbang' hquestion' (fun hmem => hin (hin' _ hmem)) ?_
      rw [behindTag, hbehind']
      exact ih

end OghamFree

end MarkupIds.Xml
