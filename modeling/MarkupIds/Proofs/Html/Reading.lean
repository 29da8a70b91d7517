import Mathlib.Data.List.TakeWhile
import MarkupIds.Proofs.Html.Attributes
import MarkupIds.Html.Scan

/-! Constructs that stand for themselves. What ends at a closing bracket is read the same whatever
follows the bracket. -/

namespace MarkupIds.Html

open MarkupIds.Text (isBlank isLetter isDigit after? cutAt cutBy EndsAtBracket)

section Ends

/-- The closing bracket itself. -/
theorem endsAtBracket_bracket : EndsAtBracket (after? ['>']) where
  append s t hmem := by
    cases s with
    | nil => cases hmem
    | cons c s =>
        by_cases hc : c = '>'
        · subst hc
          rfl
        · simp [after?, Ne.symm hc]
  ends s r h := by
    have hs : s = ['>'] ++ r := Text.after?_eq_some_iff.mp h
    exact ⟨[], hs⟩

/-- An end behind a mark and blanks. -/
theorem endsAtBracket_behind {close : List Char → Option (List Char)} (hclose : EndsAtBracket close)
    {mark : List Char} (hmark : '>' ∉ mark) :
    EndsAtBracket fun s => (after? mark s).bind fun r => close (r.dropWhile isBlank) where
  append s t hmem := by
    obtain ⟨happend, hrest⟩ := Text.after?_append_of_mem t hmark hmem
    rw [happend]
    cases hs : after? mark s with
    | none => rfl
    | some r =>
        have hr := hrest r hs
        simp only [Option.map_some, Option.bind_some]
        rw [Text.dropWhile_append_of_mem hr (by decide)]
        exact hclose.append _ t (Text.mem_dropWhile hr (by decide))
  ends s r h := by
    obtain ⟨u, hu, hr⟩ := Option.bind_eq_some_iff.mp h
    obtain ⟨m, hm⟩ := hclose.ends _ r hr
    refine ⟨mark ++ u.takeWhile isBlank ++ m, ?_⟩
    rw [List.append_assoc, ← hm, List.append_assoc, List.takeWhile_append_dropWhile]
    exact Text.after?_eq_some_iff.mp hu

theorem endsAtBracket_commentEnd : EndsAtBracket commentEnd :=
  endsAtBracket_behind endsAtBracket_bracket (by decide)

theorem endsAtBracket_shortSectionEnd : EndsAtBracket shortSectionEnd :=
  endsAtBracket_behind endsAtBracket_bracket (by decide)

theorem endsAtBracket_sectionEnd : EndsAtBracket sectionEnd :=
  endsAtBracket_behind endsAtBracket_shortSectionEnd (by decide)

theorem afterLetters?_eq_some {name s r : List Char} (h : afterLetters? name s = some r) :
    ∃ letters, s = letters ++ r := by
  induction name generalizing s with
  | nil =>
      cases h
      exact ⟨[], rfl⟩
  | cons letter name ih =>
      cases s with
      | nil => cases h
      | cons c s =>
          rw [afterLetters?] at h
          split at h
          · obtain ⟨letters, hs⟩ := ih h
            exact ⟨c :: letters, by rw [hs]; rfl⟩
          · cases h

theorem afterLetters?_append {name s : List Char} (t : List Char)
    (hname : ∀ letter ∈ name, sameLetter letter '>' = false) (hmem : '>' ∈ s) :
    afterLetters? name (s ++ t) = (afterLetters? name s).map (· ++ t) ∧
      ∀ r, afterLetters? name s = some r → '>' ∈ r := by
  induction name generalizing s with
  | nil =>
      refine ⟨rfl, ?_⟩
      intro r hr
      cases hr
      exact hmem
  | cons letter name ih =>
      cases s with
      | nil => cases hmem
      | cons c s =>
          rw [List.cons_append, afterLetters?, afterLetters?]
          by_cases hc : sameLetter letter c
          · have hne : '>' ≠ c := by
              rintro rfl
              rw [hname letter List.mem_cons_self] at hc
              cases hc
            rw [if_pos hc, if_pos hc]
            exact ih (fun l hl => hname l (List.mem_cons_of_mem _ hl))
              ((List.mem_cons.mp hmem).resolve_left hne)
          · rw [if_neg hc, if_neg hc]
            exact ⟨rfl, fun r hr => by cases hr⟩

theorem endsAtBracket_letters {name : List Char}
    (hname : ∀ letter ∈ name, sameLetter letter '>' = false) :
    EndsAtBracket fun s => (afterLetters? name s).bind fun r => after? ['>'] (r.dropWhile isBlank) where
  append s t hmem := by
    obtain ⟨happend, hrest⟩ := afterLetters?_append t hname hmem
    rw [happend]
    cases hs : afterLetters? name s with
    | none => rfl
    | some r =>
        have hr := hrest r hs
        simp only [Option.map_some, Option.bind_some]
        rw [Text.dropWhile_append_of_mem hr (by decide)]
        exact endsAtBracket_bracket.append _ t (Text.mem_dropWhile hr (by decide))
  ends s r h := by
    obtain ⟨u, hu, hr⟩ := Option.bind_eq_some_iff.mp h
    obtain ⟨m, hm⟩ := endsAtBracket_bracket.ends _ r hr
    obtain ⟨letters, rfl⟩ := afterLetters?_eq_some hu
    refine ⟨letters ++ u.takeWhile isBlank ++ m, ?_⟩
    rw [List.append_assoc, ← hm, List.append_assoc, List.takeWhile_append_dropWhile]

/-- The end tag of raw content. -/
theorem endsAtBracket_rawEnd {name : List Char}
    (hname : ∀ letter ∈ name, sameLetter letter '>' = false) : EndsAtBracket (rawEnd name) :=
  endsAtBracket_behind (endsAtBracket_letters hname) (by decide)

end Ends

/-- A text whose bracket stands behind its first characters, and the same text with another rest. -/
theorem exists_body {s m rest : List Char} {skip : Nat} (h : s.drop skip = m ++ '>' :: rest) :
    ∃ body, s = body ++ '>' :: rest ∧ skip ≤ body.length ∧
      ∀ t, (body ++ '>' :: t).drop skip = m ++ '>' :: t ∧
        (body ++ '>' :: t).length - t.length = body.length + 1 := by
  have hskip : skip ≤ s.length := by
    by_contra hlt
    rw [List.drop_eq_nil_of_le (by omega)] at h
    simp at h
  have hlength : (s.take skip).length = skip := by
    rw [List.length_take]
    omega
  refine ⟨s.take skip ++ m, ?_, ?_, ?_⟩
  · conv_lhs => rw [← List.take_append_drop skip s, h]
    rw [List.append_assoc]
  · rw [List.length_append, hlength]
    omega
  · intro t
    constructor
    · rw [List.append_assoc, List.drop_append_of_le_length (by omega),
        List.drop_of_length_le (by omega)]
      rfl
    · simp only [List.length_append, List.length_cons]
      omega

theorem readSpecial_body {kind : Markup.TextKind} {skip count : Nat} {s : List Char}
    {close : List Char → Option (List Char)} {tokens : List Token} (hclose : EndsAtBracket close)
    (h : readSpecial kind skip close s = .read tokens count) :
    ∃ body rest, s = body ++ '>' :: rest ∧ count = body.length + 1 ∧ skip ≤ body.length ∧
      ∀ t, readSpecial kind skip close (body ++ '>' :: t) = .read tokens count := by
  unfold readSpecial at h
  split at h
  next content rest hcut =>
    cases h
    obtain ⟨mark, hs, hend, -⟩ := Text.cutBy_eq_some_iff.mp hcut
    obtain ⟨m, rfl⟩ := hclose.ends mark rest hend
    rw [← List.append_assoc] at hs
    obtain ⟨body, rfl, hskip, hbehind⟩ := exists_body hs
    refine ⟨body, rest, rfl, (hbehind rest).2, hskip, ?_⟩
    intro t
    rw [hs, List.append_cons] at hcut
    unfold readSpecial
    rw [(hbehind t).1, List.append_cons, hclose.cutBy_piece hcut t]
    dsimp only
    rw [(hbehind t).2, (hbehind rest).2]
  next => cases h

/-- The first characters of a text decide whether it starts with a word without a bracket. -/
theorem lowered_take_append {s : List Char} {n : Nat} (word t u : List Char) (hword : '>' ∉ word)
    (hmem : '>' ∈ s) :
    (Text.asciiLower (String.ofList ((s ++ t).take n)) == String.ofList word) =
      (Text.asciiLower (String.ofList ((s ++ u).take n)) == String.ofList word) := by
  by_cases hn : n ≤ s.length
  · rw [List.take_append_of_le_length hn, List.take_append_of_le_length hn]
  · have hother (v : List Char) :
        (Text.asciiLower (String.ofList ((s ++ v).take n)) == String.ofList word) = false := by
      rw [beq_eq_false_iff_ne]
      intro heq
      have hlist := congrArg String.toList heq
      simp only [Text.asciiLower, String.toList_map, String.toList_ofList] at hlist
      refine hword (hlist ▸ List.mem_map.mpr ⟨'>', ?_, by decide⟩)
      rw [List.take_append, List.take_of_length_le (by omega)]
      exact List.mem_append_left _ hmem
    rw [hother, hother]

theorem sectionName?_append {body : List Char} (t : List Char) (hmem : '>' ∈ body) :
    sectionName? (body ++ t) = sectionName? body := by
  unfold sectionName?
  simp only [List.span_eq_takeWhile_dropWhile]
  rw [Text.takeWhile_append_of_mem hmem (by decide), Text.dropWhile_append_of_mem hmem (by decide)]
  have hrest := Text.mem_dropWhile (q := fun c =>
    isLetter c || isDigit c || c == '-' || c == '_' || c == '.') hmem (by decide)
  rw [Text.takeWhile_append_of_mem hrest (by decide), Text.dropWhile_append_of_mem hrest (by decide)]
  have hlast := Text.mem_dropWhile (q := isBlank) hrest (by decide)
  rw [if_neg, if_neg]
  · rw [List.isEmpty_iff]
    exact List.ne_nil_of_mem hlast
  · rw [List.isEmpty_iff]
    exact List.ne_nil_of_mem (List.mem_append_left t hlast)

theorem sectionRule?_append {body name : List Char} (t u : List Char) (hmem : '>' ∈ body) :
    sectionRule? (body ++ t) name = sectionRule? (body ++ u) name := by
  unfold sectionRule?
  rw [show "cdata[" = String.ofList ['c', 'd', 'a', 't', 'a', '['] from rfl,
    lowered_take_append _ t u (by decide) hmem]

theorem sectionRule?_closes {body name : List Char} {rule : SectionRule}
    (h : sectionRule? body name = some rule) : EndsAtBracket rule.close ∧ 3 ≤ rule.skip := by
  unfold sectionRule? at h
  dsimp only at h
  split at h
  · cases h
    exact ⟨endsAtBracket_sectionEnd, by decide⟩
  split at h
  · cases h
    exact ⟨endsAtBracket_sectionEnd, by decide⟩
  split at h
  · cases h
    exact ⟨endsAtBracket_shortSectionEnd, by decide⟩
  · cases h

theorem readSection_body {s : List Char} {tokens : List Token} {count : Nat}
    (h : readSection s = .read tokens count) :
    ∃ body rest, s = body ++ '>' :: rest ∧ count = body.length + 1 ∧ 3 ≤ body.length ∧
      ∀ t, readSection (body ++ '>' :: t) = .read tokens count := by
  unfold readSection at h
  dsimp only at h
  split at h
  next => cases h
  next c r hbody =>
    split at h
    next hletter =>
      split at h
      next => cases h
      next name blanks hname =>
        split at h
        next rule hrule =>
          obtain ⟨hclose, hskip⟩ := sectionRule?_closes hrule
          obtain ⟨body, rest, rfl, hcount, hle, hread⟩ := readSpecial_body hclose h
          refine ⟨body, rest, rfl, hcount, by omega, ?_⟩
          intro t
          have hdrop (u : List Char) : (body ++ '>' :: u).drop 3 = (body.drop 3 ++ ['>']) ++ u := by
            rw [List.drop_append_of_le_length (by omega), List.append_assoc]
            rfl
          have hmem : '>' ∈ body.drop 3 ++ ['>'] := by simp
          rw [hdrop, sectionName?_append rest hmem] at hname
          rw [hdrop, sectionRule?_append rest t hmem] at hrule
          unfold readSection
          rw [hdrop] at hbody ⊢
          cases hfirst : body.drop 3 with
          | nil =>
              rw [hfirst] at hbody
              cases hbody
              cases hletter
          | cons d b =>
              rw [hfirst] at hbody hname hrule
              cases hbody
              dsimp only [List.cons_append]
              rw [if_pos hletter, ← List.cons_append, ← List.cons_append,
                sectionName?_append t (by simp), hname]
              dsimp only
              rw [hrule]
              exact hread t
        next => cases h
    next => cases h

theorem readDeclaration_body {s : List Char} {tokens : List Token} {count : Nat}
    (h : readDeclaration s = .read tokens count) :
    ∃ body rest, s = body ++ '>' :: rest ∧ count = body.length + 1 ∧ 2 ≤ body.length ∧
      ∀ t, readDeclaration (body ++ '>' :: t) = .read tokens count := by
  have hmark (body t : List Char) : after? ['<', '!', '['] (body ++ '>' :: t) =
      (after? ['<', '!', '['] (body ++ ['>'])).map (· ++ t) := by
    rw [List.append_cons]
    exact (Text.after?_append_of_mem t (by decide) (by simp)).1
  have hword (body t u : List Char) :
      (Text.asciiLower (String.ofList ((body ++ '>' :: t).take 9)) == "<!doctype") =
        (Text.asciiLower (String.ofList ((body ++ '>' :: u).take 9)) == "<!doctype") := by
    rw [List.append_cons, List.append_cons body '>' u]
    exact lowered_take_append "<!doctype".toList t u (by decide) (by simp)
  unfold readDeclaration at h
  split at h
  next r hafter =>
    obtain ⟨body, rest, rfl, hcount, hle, hread⟩ := readSection_body h
    refine ⟨body, rest, rfl, hcount, by omega, ?_⟩
    intro t
    rw [hmark] at hafter
    obtain ⟨r', hr', -⟩ := Option.map_eq_some_iff.mp hafter
    unfold readDeclaration
    rw [hmark, hr']
    exact hread t
  next hafter =>
    have hnone (body rest t : List Char) (hs : s = body ++ '>' :: rest) :
        after? ['<', '!', '['] (body ++ '>' :: t) = none := by
      rw [hs, hmark, Option.map_eq_none_iff] at hafter
      rw [hmark, hafter]
      rfl
    split at h
    next hdoctype =>
      split at h
      next content rest hcut =>
        obtain ⟨hdrop, hcontent⟩ := Text.cutAt_singleton_iff.mp hcut
        cases h
        obtain ⟨body, rfl, hskip, hbehind⟩ := exists_body hdrop
        refine ⟨body, rest, rfl, (hbehind rest).2, by omega, ?_⟩
        intro t
        unfold readDeclaration
        rw [hnone body rest t rfl]
        dsimp only
        rw [if_pos (by rw [hword body t rest]; exact hdoctype), (hbehind t).1,
          Text.cutAt_singleton_iff.mpr ⟨rfl, hcontent⟩]
        dsimp only
        rw [(hbehind t).2, (hbehind rest).2]
      next => cases h
    next hdoctype =>
      obtain ⟨body, rest, hs, hcount, hle, hread⟩ := readSpecial_body endsAtBracket_bracket h
      refine ⟨body, rest, hs, hcount, by omega, ?_⟩
      intro t
      unfold readDeclaration
      rw [hnone body rest t hs]
      dsimp only
      rw [if_neg]
      · exact hread t
      · rw [hword body t rest, ← hs]
        exact hdoctype

theorem plainClosing?_append {s : List Char} (t : List Char) (hmem : '>' ∈ s.drop 2) :
    (plainClosing? (s ++ t)).map Prod.fst = (plainClosing? s).map Prod.fst := by
  have hlength : 2 ≤ s.length := by
    by_contra hlt
    rw [List.drop_eq_nil_of_le (by omega)] at hmem
    cases hmem
  unfold plainClosing?
  rw [List.drop_append_of_le_length hlength, Text.dropWhile_append_of_mem hmem (by decide)]
  have hname := Text.mem_dropWhile (q := isBlank) hmem (by decide)
  cases hrest : (s.drop 2).dropWhile isBlank with
  | nil =>
      rw [hrest] at hname
      cases hname
  | cons c r =>
      rw [List.cons_append]
      dsimp only
      by_cases hletter : isLetter c
      · rw [if_pos hletter, if_pos hletter]
        have hr : '>' ∈ r := by
          rw [hrest] at hname
          refine (List.mem_cons.mp hname).resolve_left ?_
          rintro rfl
          cases hletter
        simp only [List.span_eq_takeWhile_dropWhile]
        rw [Text.takeWhile_append_of_mem hr (by decide), Text.dropWhile_append_of_mem hr (by decide)]
        have hbehind := Text.mem_dropWhile (q := fun c =>
          isLetter c || isDigit c || c == '-' || c == '.' || c == ':' || c == '_') hr (by decide)
        rw [Text.dropWhile_append_of_mem hbehind (by decide)]
        have hlast := Text.mem_dropWhile (q := isBlank) hbehind (by decide)
        split
        next u hu =>
          split
          next => rfl
          next hne =>
            cases hend : (r.dropWhile fun c =>
                isLetter c || isDigit c || c == '-' || c == '.' || c == ':' || c == '_').dropWhile
                  isBlank with
            | nil =>
                rw [hend] at hlast
                cases hlast
            | cons d v =>
                rw [hend] at hu
                cases hu
                exact absurd hend (hne v)
        next hne =>
          split
          next u hu =>
            rw [hu] at hne
            exact absurd rfl (hne (u ++ t))
          next => rfl
      · rw [if_neg hletter, if_neg hletter]

/-- What an end tag stands for, where `b` is all between its slash and its bracket. -/
def closingTokens (b : List Char) : List Token :=
  match plainClosing? ('<' :: '/' :: (b ++ ['>'])) with
  | some (name, _) => [.closing (String.ofList (Text.lower name))]
  | none =>
    match b with
    | [] => []
    | c :: r =>
      if isLetter c then [.closing (String.ofList (Text.lower (c :: r.takeWhile isNameChar)))]
      else [.special .comment b]

theorem readClosing_eq {b : List Char} (hb : '>' ∉ b) (t : List Char) :
    readClosing ('<' :: '/' :: (b ++ '>' :: t)) = .read (closingTokens b) (b.length + 3) := by
  have hcut : cutAt ['>'] (('<' :: '/' :: (b ++ '>' :: t)).drop 1) = some ('/' :: b, t) :=
    Text.cutAt_singleton_iff.mpr ⟨rfl, by simp [hb]⟩
  have hcount : ('<' :: '/' :: (b ++ '>' :: t)).length - t.length = b.length + 3 := by
    simp only [List.length_cons, List.length_append]
    omega
  have hplain : (plainClosing? ('<' :: '/' :: (b ++ '>' :: t))).map Prod.fst =
      (plainClosing? ('<' :: '/' :: (b ++ ['>']))).map Prod.fst := by
    rw [List.append_cons]
    exact plainClosing?_append (s := '<' :: '/' :: (b ++ ['>'])) t (by simp)
  unfold readClosing closingTokens
  rw [hcut]
  dsimp only
  rw [hcount]
  cases hnew : plainClosing? ('<' :: '/' :: (b ++ '>' :: t)) with
  | some found =>
      rw [hnew] at hplain
      obtain ⟨found', hfound', hname⟩ := Option.map_eq_some_iff.mp hplain.symm
      rw [hfound']
      dsimp only
      rw [hname]
  | none =>
      rw [hnew] at hplain
      rw [Option.map_eq_none_iff.mp hplain.symm]
      cases b with
      | nil => rfl
      | cons c r =>
          have hr : (r ++ '>' :: t).takeWhile isNameChar = r.takeWhile isNameChar :=
            Text.takeWhile_append_of_head fun d hd => by
              cases hd
              decide
          have hne : c ≠ '>' := fun h => hb (h ▸ List.mem_cons_self)
          have hbehind : ('<' :: '/' :: (c :: r ++ '>' :: t)).drop 2 = c :: (r ++ '>' :: t) := rfl
          have hcomment : cutBy (after? ['>']) (c :: (r ++ '>' :: t)) = some (c :: r, t) :=
            Text.cutAt_singleton_iff.mpr ⟨rfl, hb⟩
          dsimp only
          rw [hbehind]
          split
          next u hu => exact absurd (List.cons.inj hu).1 hne
          next d u hu =>
            cases hu
            rw [hr]
            by_cases hletter : isLetter c
            · rw [if_pos hletter, if_pos hletter]
            · rw [if_neg hletter, if_neg hletter]
              unfold readSpecial
              rw [hbehind, hcomment]
              dsimp only
              rw [hcount]
          next hu => cases hu

theorem readClosing_body {r : List Char} {tokens : List Token} {count : Nat}
    (h : readClosing ('<' :: '/' :: r) = .read tokens count) :
    ∃ b rest, r = b ++ '>' :: rest ∧ count = b.length + 3 ∧
      ∀ t, readClosing ('<' :: '/' :: (b ++ '>' :: t)) = .read tokens count := by
  cases hcut : cutAt ['>'] r with
  | none =>
      have hnone : cutAt ['>'] (('<' :: '/' :: r).drop 1) = none :=
        Text.cutAt_singleton_eq_none_iff.mpr (by
          simpa using Text.cutAt_singleton_eq_none_iff.mp hcut)
      unfold readClosing at h
      rw [hnone] at h
      cases h
  | some found =>
      obtain ⟨rfl, hb⟩ := Text.cutAt_singleton_iff.mp hcut
      rw [readClosing_eq hb] at h
      cases h
      exact ⟨found.1, found.2, rfl, rfl, fun t => readClosing_eq hb t⟩

/-- A start tag begins here. -/
def startsTag : List Char → Bool
  | '<' :: c :: _ => isLetter c
  | _ => false

theorem readMarkup_declaration {r : List Char} (h : ∀ u, r ≠ '-' :: '-' :: u) :
    readMarkup ('<' :: '!' :: r) = readDeclaration ('<' :: '!' :: r) := by
  match r with
  | [] => rfl
  | [c] => by_cases hc : c = '-' <;> simp_all [readMarkup]
  | c :: d :: r =>
    by_cases hc : c = '-'
    · have hd : d ≠ '-' := by
        rintro rfl
        exact h r (by rw [hc])
      simp [readMarkup, hc, hd]
    · simp [readMarkup]

/-- The piece at the start of a text that makes up a construct, and the construct in other places. -/
def ReadAlone (s : List Char) (tokens : List Token) (count : Nat) : Prop :=
  ∃ piece rest, s = piece ++ rest ∧ count = piece.length ∧ 0 < piece.length ∧
    ∀ t, t.head? = rest.head? → readMarkup (piece ++ t) = .read tokens count

theorem readAlone_of_body {s : List Char} {tokens : List Token} {count : Nat} {body rest : List Char}
    (hs : s = body ++ '>' :: rest) (hcount : count = body.length + 1)
    (h : ∀ t, readMarkup (body ++ '>' :: t) = .read tokens count) : ReadAlone s tokens count := by
  refine ⟨body ++ ['>'], rest, by rw [hs]; simp, by simp [hcount], by simp, ?_⟩
  intro t _
  rw [← List.append_cons]
  exact h t

theorem readAlone_of_head {s : List Char} {tokens : List Token} {count : Nat} {body rest : List Char}
    (head : List Char) (read : List Char → Reading) (hread : ∀ u, readMarkup (head ++ u) = read (head ++ u))
    (hhead : head <+: s) (hs : s = body ++ '>' :: rest) (hcount : count = body.length + 1)
    (hle : head.length ≤ body.length) (h : ∀ t, read (body ++ '>' :: t) = .read tokens count) :
    ReadAlone s tokens count := by
  obtain ⟨b, rfl⟩ : head <+: body :=
    List.prefix_of_prefix_length_le hhead ⟨'>' :: rest, hs.symm⟩ hle
  refine readAlone_of_body hs hcount ?_
  intro t
  rw [List.append_assoc, hread, ← List.append_assoc]
  exact h t

/-- Markup that is no start tag is read the same in every place. -/
theorem readMarkup_alone {s : List Char} {tokens : List Token} {count : Nat}
    (h : readMarkup s = .read tokens count) (htag : startsTag s = false) :
    ReadAlone s tokens count := by
  unfold readMarkup at h
  split at h
  next r =>
    obtain ⟨b, rest, rfl, hcount, hread⟩ := readClosing_body h
    have hs : '<' :: '/' :: (b ++ '>' :: rest) = ('<' :: '/' :: b) ++ '>' :: rest := rfl
    exact readAlone_of_body hs (by simp [hcount]) hread
  next r =>
    obtain ⟨body, rest, hs, hcount, hle, hread⟩ := readSpecial_body endsAtBracket_commentEnd h
    exact readAlone_of_head ['<', '!', '-', '-'] (readSpecial .comment 4 commentEnd) (fun u => rfl) ⟨r, rfl⟩ hs hcount hle hread
  next r =>
    obtain ⟨body, rest, hs, hcount, hle, hread⟩ := readSpecial_body endsAtBracket_bracket h
    exact readAlone_of_head ['<', '?'] (readSpecial .instruction 2 (after? ['>'])) (fun u => rfl) ⟨r, rfl⟩ hs hcount hle hread
  next r hne =>
    obtain ⟨body, rest, hs, hcount, hle, hread⟩ := readDeclaration_body h
    obtain ⟨b, rfl⟩ : ['<', '!'] <+: body :=
      List.prefix_of_prefix_length_le ⟨r, rfl⟩ ⟨'>' :: rest, hs.symm⟩ hle
    cases hs
    refine readAlone_of_body rfl hcount ?_
    intro t
    rw [← hread t]
    refine readMarkup_declaration ?_
    intro u hu
    match b with
    | [] => cases hu
    | [c] => cases hu
    | c :: d :: b =>
      cases hu
      exact hne _ rfl
  next c r _ _ _ _ =>
    split at h
    next hletter =>
      rw [startsTag] at htag
      rw [htag] at hletter
      cases hletter
    next hletter =>
      cases h
      refine ⟨['<'], c :: r, rfl, rfl, by decide, ?_⟩
      intro t ht
      match t with
      | [] => cases ht
      | d :: u =>
        cases ht
        simp_all [readMarkup]
  next => cases h

/-- Neither a construct nor what takes the place of its rest makes a difference to how it is read: the
rest is the same, or both rests start with the same character and hold an opening bracket. -/
def Alike (s t : List Char) : Prop := s = t ∨ (s.head? = t.head? ∧ '<' ∈ s ∧ '<' ∈ t)

/-- A finding that stays the same in other places. -/
def FoundAlone (find : List Char → Finding) (s : List Char) (tokens : List Token) (count : Nat) : Prop :=
  0 < count ∧ count ≤ s.length ∧
    ∀ t, Alike (s.drop count) t → find (s.take count ++ t) = .goOn tokens count

theorem foundAlone_of_piece {find : List Char → Finding} (piece : List Char) {rest : List Char}
    {tokens : List Token} (hpiece : 0 < piece.length) (hhere : find (piece ++ rest) = .goOn tokens piece.length)
    (h : ∀ t, t.head? = rest.head? → '<' ∈ rest → '<' ∈ t →
      find (piece ++ t) = .goOn tokens piece.length) :
    FoundAlone find (piece ++ rest) tokens piece.length := by
  refine ⟨hpiece, by simp, ?_⟩
  intro t halike
  rw [List.drop_left] at halike
  rw [List.take_left]
  obtain rfl | ⟨hhead, hrest, ht⟩ := halike
  · exact hhere
  · exact h t hhead.symm hrest ht

theorem numeral?_eq_some {s digits : List Char} {skip base skip' base' : Nat} {q : Char → Bool}
    (hq : ∀ c, q c = true → Text.isHexDigit c = true)
    (h : numeral? skip base q s = some (skip', base', digits)) :
    skip' = skip ∧ ∃ c rest, s = digits ++ c :: rest ∧
      ∀ t, numeral? skip base q (digits ++ c :: t) = some (skip', base', digits) := by
  unfold numeral? at h
  dsimp only at h
  split at h
  next c rest hdrop =>
    split at h
    next => cases h
    next hc =>
      cases h
      have hlast : q c = false := by
        cases hqc : q c with
        | false => rfl
        | true => simp [hq c hqc] at hc
      have hs : s = s.takeWhile q ++ c :: rest := by
        conv_lhs => rw [← List.take_append_drop (s.takeWhile q).length s, hdrop]
        rw [← List.prefix_iff_eq_take.mp (List.takeWhile_prefix q)]
      refine ⟨rfl, c, rest, hs, ?_⟩
      intro t
      have hrun : (s.takeWhile q ++ c :: t).takeWhile q = s.takeWhile q := by
        rw [Text.takeWhile_append_of_head fun d hd => by cases hd; exact hlast]
        exact List.takeWhile_idem
      unfold numeral?
      dsimp only
      rw [hrun, List.drop_left]
      dsimp only
      rw [if_neg hc]
  next => cases h

theorem isHexDigit_of_isDigit {c : Char} (h : isDigit c = true) : Text.isHexDigit c = true := by
  rw [Text.isHexDigit, h]
  rfl

/-- A number is read up to the character behind it. -/
theorem textNumber?_eq_some {s : List Char} {skip base : Nat} {digits : List Char}
    (h : textNumber? s = some (skip, base, digits)) :
    ∃ head c rest, s = head ++ c :: rest ∧ head.length = skip + digits.length ∧
      ∀ t, textNumber? (head ++ c :: t) = some (skip, base, digits) := by
  unfold textNumber? at h
  split at h
  next r =>
    obtain ⟨rfl, c, rest, rfl, hread⟩ := numeral?_eq_some (fun c hc => hc) h
    exact ⟨'x' :: digits, c, rest, rfl, by simp [Nat.add_comm], hread⟩
  next r =>
    obtain ⟨rfl, c, rest, rfl, hread⟩ := numeral?_eq_some (fun c hc => hc) h
    exact ⟨'X' :: digits, c, rest, rfl, by simp [Nat.add_comm], hread⟩
  next hx hX =>
    obtain ⟨rfl, c, rest, rfl, hread⟩ := numeral?_eq_some (fun c hc => isHexDigit_of_isDigit hc) h
    refine ⟨digits, c, rest, rfl, (Nat.zero_add _).symm, ?_⟩
    intro t
    rw [← hread t]
    unfold textNumber?
    cases hdigits : digits with
    | nil =>
        rw [hdigits] at hx hX
        split
        next u hu => cases hu; exact absurd rfl (hx _)
        next u hu => cases hu; exact absurd rfl (hX _)
        next => rfl
    | cons d ds =>
        rw [hdigits] at hx hX
        split
        next u hu => cases hu; exact absurd rfl (hx _)
        next u hu => cases hu; exact absurd rfl (hX _)
        next => rfl

/-- The semicolon behind a reference belongs to it. -/
theorem withSemicolon_append (head : List Char) (c : Char) (t : List Char) :
    withSemicolon head.length (head ++ c :: t) =
      if c = ';' then head.length + 1 else head.length := by
  unfold withSemicolon
  rw [List.drop_left, List.head?_cons]
  by_cases hc : c = ';' <;> simp [hc]

theorem foundAlone_of_reference {find : List Char → Finding} (head : List Char) {rest : List Char} {c : Char}
    {tokens : List Token} (hhead : 0 < head.length)
    (h : ∀ t, find (head ++ c :: t) = .goOn tokens (withSemicolon head.length (head ++ c :: t))) :
    FoundAlone find (head ++ c :: rest) tokens (withSemicolon head.length (head ++ c :: rest)) := by
  simp only [withSemicolon_append] at h ⊢
  by_cases hc : c = ';'
  · simp only [hc, if_true] at h ⊢
    have hlength : head.length + 1 = (head ++ [';']).length := by simp
    rw [List.append_cons, hlength]
    refine foundAlone_of_piece (head ++ [';']) (by simp) ?_ ?_
    · rw [← List.append_cons, h, hlength]
    · intro t _ _ _
      rw [← List.append_cons, h, hlength]
  · simp only [hc, if_false] at h ⊢
    refine foundAlone_of_piece head hhead (h rest) ?_
    intro t ht _ _
    cases t with
    | nil => cases ht
    | cons d t =>
        cases ht
        exact h t

theorem mem_takeWhile {q : Char → Bool} {s : List Char} (h : (s.takeWhile q).length = s.length) :
    ∀ c ∈ s, q c = true := by
  have hs := (List.takeWhile_prefix q (l := s)).eq_of_length h
  exact List.takeWhile_eq_self_iff.mp hs

/-- A name is read up to the character behind it, unless nothing but its characters follows. -/
theorem textName?_eq_some {s name : List Char} (h : textName? s = some name) :
    name.length ≤ s.length ∧ ((∀ c ∈ s, isTextNameChar c) ∨
      ∃ d n c rest, name = d :: n ∧ isLetter d ∧ s = name ++ c :: rest ∧
        ∀ t, textName? (name ++ c :: t) = some name) := by
  unfold textName? at h
  split at h
  next d r =>
    split at h
    next hletter =>
      have hname : isTextNameChar d = true := by
        rw [isTextNameChar, hletter]
        rfl
      have hle := (List.takeWhile_prefix isTextNameChar (l := d :: r)).length_le
      dsimp only at h
      split at h
      next hlt =>
        cases h
        refine ⟨hle, .inr ?_⟩
        have hsplit := List.takeWhile_append_dropWhile (p := isTextNameChar) (l := d :: r)
        cases hrest : (d :: r).dropWhile isTextNameChar with
        | nil =>
            rw [hrest, List.append_nil] at hsplit
            rw [hsplit] at hlt
            omega
        | cons c rest =>
            have hc : isTextNameChar c = false := by
              have := List.head?_dropWhile_not isTextNameChar (d :: r)
              rw [hrest] at this
              simpa using this
            have hrun (t : List Char) :
                ((d :: r).takeWhile isTextNameChar ++ c :: t).takeWhile isTextNameChar =
                  (d :: r).takeWhile isTextNameChar := by
              rw [Text.takeWhile_append_of_head fun e he => by cases he; exact hc]
              exact List.takeWhile_idem
            have hcons := List.takeWhile_cons_of_pos (l := r) hname
            refine ⟨d, r.takeWhile isTextNameChar, c, rest, hcons, hletter, by rw [← hrest, hsplit], ?_⟩
            intro t
            rw [hcons, List.cons_append, textName?, if_pos hletter, ← List.cons_append, ← hcons]
            dsimp only
            rw [hrun, if_pos (by simp)]
      next hlt =>
        refine ⟨?_, .inl (mem_takeWhile (by omega))⟩
        split at h
        next => cases h
        next e kept hkept =>
          cases h
          have hsuffix := (List.dropWhile_suffix (l := ((d :: r).takeWhile isTextNameChar).reverse)
            fun c => isLetter c || isDigit c).length_le
          rw [hkept, List.length_reverse, List.length_cons] at hsuffix
          rw [List.length_reverse]
          omega
    next => cases h
  next => cases h

theorem atAmpersand_plain {c : Char} (hletter : isLetter c = false) (hc : c ≠ '#') (lastPass : Bool)
    (s : List Char) : atAmpersand lastPass ('&' :: c :: s) = .goOn [.text ['&']] 1 := by
  have hname : textName? (c :: s) = none := by
    rw [textName?, hletter]
    rfl
  cases s <;> simp [atAmpersand, hname, hletter, hc]

theorem atAmpersand_alone {s : List Char} {tokens : List Token} {count : Nat}
    (h : atAmpersand false ('&' :: s) = .goOn tokens count) :
    FoundAlone (atAmpersand false) ('&' :: s) tokens count := by
  unfold atAmpersand at h
  rw [List.drop_succ_cons, List.drop_zero] at h
  split at h
  next r =>
    split at h
    next skip base digits hnumber =>
      split at h
      next => cases h
      next hshort =>
      cases h
      obtain ⟨head, c, rest, rfl, hlength, hread⟩ := textNumber?_eq_some hnumber
      have hcount : 2 + skip + digits.length = ('&' :: '#' :: head).length := by
        simp only [List.length_cons]
        omega
      rw [hcount]
      refine foundAlone_of_reference ('&' :: '#' :: head) (by simp) ?_
      intro t
      simp only [atAmpersand, List.cons_append, List.drop_succ_cons, List.drop_zero, hread t, hcount, if_neg hshort]
    next => split at h <;> cases h
  next hne =>
    split at h
    next name hname =>
      cases h
      obtain ⟨hle, hall | ⟨d, n, c, rest, hd, hletter, rfl, hread⟩⟩ := textName?_eq_some hname
      · have hcount : 1 + name.length ≤ withSemicolon (1 + name.length) ('&' :: s) := by
          unfold withSemicolon
          split <;> omega
        refine ⟨by omega, ?_, ?_⟩
        · unfold withSemicolon
          split
          next hsemicolon =>
            by_contra hlt
            rw [List.drop_eq_nil_of_le (by omega)] at hsemicolon
            cases hsemicolon
          next => exact Nat.add_comm 1 _ ▸ Nat.succ_le_succ hle
        · rintro t (rfl | ⟨-, hmem, -⟩)
          · rw [List.take_append_drop]
            simp only [atAmpersand, List.drop_succ_cons, List.drop_zero, hname]
          · have hs := (List.mem_cons.mp (List.mem_of_mem_drop hmem)).resolve_left (by decide)
            cases hall '<' hs
      · have hcount : 1 + name.length = ('&' :: name).length := Nat.add_comm 1 _
        rw [hcount]
        refine foundAlone_of_reference ('&' :: name) (by simp) ?_
        intro t
        have hhash : d ≠ '#' := by
          rintro rfl
          cases hletter
        have hread' := hread t
        rw [hd, List.cons_append] at hread'
        simp [atAmpersand, hd, hhash, hread', Nat.add_comm 1]
    next hname =>
      have hplain {c : Char} {r : List Char} (hs : s = c :: r) (hletter : ¬ isLetter c) :
          FoundAlone (atAmpersand false) ('&' :: s) [.text ['&']] 1 := by
        subst hs
        have hc : c ≠ '#' := by
          rintro rfl
          exact hne r rfl
        have hread := atAmpersand_plain (Bool.eq_false_iff.mpr hletter) hc false
        refine foundAlone_of_piece ['&'] (by decide) (hread r) ?_
        intro t ht _ _
        cases t with
        | nil => cases ht
        | cons d t =>
            cases ht
            exact hread t
      split at h
      next => cases h
      next c =>
        split at h
        next => cases h
        next hletter =>
          cases h
          exact hplain rfl hletter
      next c r _ =>
        split at h
        next => cases h
        next hletter =>
          cases h
          exact hplain rfl hletter

/-- Raw content is read up to its end tag, whatever follows that. -/
theorem inRaw_alone {name : String} (hname : isRaw name = true) {s : List Char} {tokens : List Token}
    {count : Nat} (h : inRaw name s = .goOn tokens count) : FoundAlone (inRaw name) s tokens count := by
  have hletters : ∀ letter ∈ name.toList, sameLetter letter '>' = false := by
    have hall : name.toList.all (fun letter => !sameLetter letter '>') = true := by
      obtain hscript | hstyle := Bool.or_eq_true_iff.mp hname
      · rw [beq_iff_eq.mp hscript]
        decide
      · rw [beq_iff_eq.mp hstyle]
        decide
    intro letter hletter
    simpa using List.all_eq_true.mp hall letter hletter
  have hclose := endsAtBracket_rawEnd hletters
  cases hcut : cutBy (rawEnd name.toList) s with
  | none =>
      rw [inRaw, hcut] at h
      cases h
  | some found =>
      obtain ⟨content, rest⟩ := found
      obtain ⟨mark, rfl, hend, -⟩ := Text.cutBy_eq_some_iff.mp hcut
      obtain ⟨m, rfl⟩ := hclose.ends mark rest hend
      have hsplit (t : List Char) : content ++ (m ++ '>' :: t) = (content ++ (m ++ ['>'])) ++ t := by
        simp
      rw [hsplit] at h hcut ⊢
      have hread (t : List Char) : inRaw name ((content ++ (m ++ ['>'])) ++ t) =
          .goOn (rawTokens name content (m ++ ['>'])) (content ++ (m ++ ['>'])).length := by
        have hcount : ((content ++ (m ++ ['>'])) ++ t).length - t.length =
            (content ++ (m ++ ['>'])).length := by
          rw [List.length_append]
          omega
        rw [inRaw, hclose.cutBy_piece hcut t]
        dsimp only
        rw [hcount, List.take_left, List.drop_left]
      rw [hread] at h
      cases h
      have hpiece : 0 < (content ++ (m ++ ['>'])).length := by
        rw [List.length_append, List.length_append]
        exact Nat.lt_of_lt_of_le (Nat.succ_pos _) (Nat.le_add_left _ _)
      exact foundAlone_of_piece _ hpiece (hread rest) fun t _ _ _ => hread t

/-- A run of plain text is read up to the bracket or the ampersand behind it. -/
theorem inContent_text {c : Char} (hlt : c ≠ '<') (hamp : c ≠ '&') (s : List Char) :
    inContent false (c :: s) =
      .goOn [.text ((c :: s).takeWhile fun c => !(c == '<' || c == '&'))]
        ((c :: s).takeWhile fun c => !(c == '<' || c == '&')).length := by
  unfold inContent
  split
  next h => cases h
  next h => exact absurd (List.cons.inj h).1 hlt
  next h => exact absurd (List.cons.inj h).1 hamp
  next => rfl

theorem text_alone {c : Char} (hlt : c ≠ '<') (hamp : c ≠ '&') {s : List Char} {tokens : List Token}
    {count : Nat} (h : inContent false (c :: s) = .goOn tokens count) :
    FoundAlone (inContent false) (c :: s) tokens count := by
  let q : Char → Bool := fun c => !(c == '<' || c == '&')
  have hq : q c = true := by simp [q, hlt, hamp]
  have hrun := List.takeWhile_cons_of_pos (p := q) (l := s) hq
  have hread (t : List Char) (ht : ∀ d, t.head? = some d → q d = false) :
      inContent false ((c :: s).takeWhile q ++ t) =
        .goOn [.text ((c :: s).takeWhile q)] ((c :: s).takeWhile q).length := by
    have hagain : ((c :: s).takeWhile q ++ t).takeWhile q = (c :: s).takeWhile q := by
      rw [Text.takeWhile_append_of_head ht]
      exact List.takeWhile_idem
    have hfirst : (c :: s).takeWhile q ++ t = c :: (s.takeWhile q ++ t) := by rw [hrun, List.cons_append]
    rw [hfirst, inContent_text hlt hamp, ← hfirst]
    exact congrArg (fun run => Finding.goOn [.text run] run.length) hagain
  have hnext : ∀ d, ((c :: s).dropWhile q).head? = some d → q d = false := by
    intro d hd
    have hnot := List.head?_dropWhile_not q (c :: s)
    rw [hd] at hnot
    simpa using hnot
  rw [← List.takeWhile_append_dropWhile (p := q) (l := c :: s)] at h ⊢
  rw [hread _ hnext] at h
  cases h
  refine foundAlone_of_piece _ (by rw [hrun]; simp) (hread _ hnext) ?_
  intro t ht _ _
  exact hread t fun d hd => hnext d (ht ▸ hd)

theorem foundAlone_atBracket {s : List Char} {tokens : List Token} {count : Nat}
    (h : inContent false ('<' :: s) = .goOn tokens count) (htag : startsTag ('<' :: s) = false) :
    FoundAlone (inContent false) ('<' :: s) tokens count := by
  have hbracket (u : List Char) : inContent false ('<' :: u) = atBracket false ('<' :: u) := rfl
  rw [hbracket, atBracket] at h
  split at h
  next hread =>
    cases h
    obtain ⟨piece, rest, hs, rfl, hpiece, hother⟩ := readMarkup_alone hread htag
    cases piece with
    | nil => cases hpiece
    | cons c piece =>
        cases hs
        have hfind (t : List Char) (ht : t.head? = rest.head?) :
            inContent false ('<' :: piece ++ t) = .goOn tokens ('<' :: piece).length := by
          rw [List.cons_append, hbracket, atBracket, ← List.cons_append, hother t ht]
        exact foundAlone_of_piece _ hpiece (hfind rest rfl) fun t ht _ _ => hfind t ht
  next => cases h
  next => cases h

/-- What goes on in content is found in other places too, if it is no start tag. -/
theorem inContent_alone {s : List Char} {tokens : List Token} {count : Nat}
    (h : inContent false s = .goOn tokens count) (htag : startsTag s = false) :
    FoundAlone (inContent false) s tokens count := by
  cases s with
  | nil => cases h
  | cons c s =>
      by_cases hlt : c = '<'
      · subst hlt
        exact foundAlone_atBracket h htag
      by_cases hamp : c = '&'
      · subst hamp
        obtain ⟨hpos, hle, hother⟩ := atAmpersand_alone h
        refine ⟨hpos, hle, ?_⟩
        intro t ht
        obtain ⟨n, rfl⟩ := Nat.exists_eq_succ_of_ne_zero (Nat.pos_iff_ne_zero.mp hpos)
        exact hother t ht
      · exact text_alone hlt hamp h

/-- What is found in the first pass, a start tag apart, is found in other places too. -/
theorem findingAt_alone {raw : Option String} (hraw : ∀ name, raw = some name → isRaw name = true)
    {s : List Char} {tokens : List Token} {count : Nat} (h : findingAt false raw s = .goOn tokens count)
    (htag : raw = none → startsTag s = false) : FoundAlone (findingAt false raw) s tokens count := by
  cases raw with
  | none => exact inContent_alone h (htag rfl)
  | some name => exact inRaw_alone (hraw name rfl) h

end MarkupIds.Html
