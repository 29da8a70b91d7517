import MarkupIds.Proofs.Text.Regex
import MarkupIds.Proofs.Html.Attributes
import MarkupIds.Proofs.Html.StartTag

/-! The two regular expressions for a start tag: one for its parts, and one for an attribute. Tags
and attributes match as they are read, except that the first gives characters of a name back where the rest does not
match behind all of it: then a quote follows. -/

namespace MarkupIds.Html

open MarkupIds.Text (Regex after? isBlank isLetter cutAt lower)
open MarkupIds.Text.Regex
open StartTag (tail? endOutside? quoteAfter splitTail read? value? attribute? withoutFrom without)

namespace Expression

/-- A part of what stands between the name and the end of a start tag: a character, or a text in quotes. -/
def part : Regex := one (fun c => !(c == '>' || c == '"' || c == '\'')) ||| (quotedBy '"' ||| quotedBy '\'')

/-- A start tag in parts. -/
def tag : Regex :=
  text ['<'] ++ (group "name" (one isLetter ++ many (one StartTag.isNameChar)) ++
    (group "attrs" (few part) ++ group "tail" tail))

/-- What stands behind the equals sign of an attribute. -/
def value : Regex := quotedBy '"' ||| (quotedBy '\'' ||| run1 fun c => !(isBlank c || c == '>'))

/-- An attribute in parts, with a value or without. -/
def attr : Regex :=
  group "lead" (many (one isBlank)) ++ (group "name" (run1 StartTag.isAttributeChar) ++
    opt (many (one isBlank) ++ (text ['='] ++ (many (one isBlank) ++ value))))

variable {α : Type} {next : Groups → List Char → Option α} {g : Groups} {s : List Char}

section Tag

theorem run_tail : (group "tail" tail).run next g s =
    (tail? s).bind fun u => next (g ++ [("tail", u)]) (s.drop u.length) := by
  have hend (u : List Char) {rest : List Char} (h : s = u ++ rest) :
      next (g ++ [("tail", passed s rest)]) rest = next (g ++ [("tail", u)]) (s.drop u.length) := by
    rw [h, passed_append, List.drop_left]
  have hs := List.takeWhile_append_dropWhile (p := isBlank) (l := s)
  rw [run_group, tail, run_append, run_many_one fun _ _ t hc => run_slash_close_of_isBlank hc t, run_slash_close]
  unfold tail?
  rw [List.span_eq_takeWhile_dropWhile]
  dsimp only
  split
  next rest hrest =>
    rw [hrest, List.append_cons] at hs
    rw [hrest]
    exact hend _ hs.symm
  next rest hrest =>
    rw [hrest, List.append_cons, List.append_cons, List.append_assoc _ ['/']] at hs
    rw [hrest]
    exact hend _ hs.symm
  next => simp

theorem splitTail_quoted_cons {q c : Char} (h : c ≠ q) (s : List Char) :
    splitTail (some q) (c :: s) = (splitTail (some q) s).map fun found => (c :: found.1, found.2) := by
  have hquote : quoteAfter (some q) c = some q := if_neg (by simpa using h)
  rw [splitTail, endOutside?, Option.isSome_some, if_pos rfl, hquote]

theorem splitTail_quoted {q : Char} {v : List Char} (h : q ∉ v) (rest : List Char) :
    splitTail (some q) (v ++ q :: rest) = (splitTail none rest).map fun found => (v ++ q :: found.1, found.2) := by
  induction v with
  | nil =>
      have hquote : quoteAfter (some q) q = none := if_pos (beq_self_eq_true q)
      rw [List.nil_append, splitTail, endOutside?, Option.isSome_some, if_pos rfl, hquote]
      rfl
  | cons c v ih =>
      obtain ⟨hc, hv⟩ := not_or.mp (mt List.mem_cons.mpr h)
      rw [List.cons_append, splitTail_quoted_cons (Ne.symm hc), ih hv, Option.map_map]
      rfl

theorem splitTail_unclosed {q : Char} (h : q ∉ s) : splitTail (some q) s = none := by
  induction s with
  | nil => rfl
  | cons c s ih =>
      obtain ⟨hc, hs⟩ := not_or.mp (mt List.mem_cons.mpr h)
      rw [splitTail_quoted_cons (Ne.symm hc), ih hs]
      rfl

/-- A part at the start of a text that does not end a tag. -/
theorem run_part {c : Char} (hc : c ≠ '>') (t : List Char) : part.run next g (c :: t) =
    if c = '"' ∨ c = '\'' then (cutAt [c] t).bind fun found => next g found.2 else next g t := by
  rw [part, run_or, run_or, run_one_cons]
  by_cases hdouble : c = '"'
  · subst hdouble
    rw [if_neg (by decide), if_pos (.inl rfl), run_quotedBy_self, run_quotedBy_of_ne (by decide)]
    cases (cutAt ['"'] t).bind fun found => next g found.2 <;> rfl
  by_cases hsingle : c = '\''
  · subst hsingle
    rw [if_neg (by decide), if_pos (.inr rfl), run_quotedBy_self, run_quotedBy_of_ne (by decide)]
    rfl
  · rw [if_pos (by simp [hc, hdouble, hsingle]), if_neg (not_or.mpr ⟨hdouble, hsingle⟩),
      run_quotedBy_of_ne (Ne.symm hdouble), run_quotedBy_of_ne (Ne.symm hsingle)]
    cases next g t <;> rfl

/-- Parts are passed up to where the tag ends. -/
theorem run_few_part {k : Groups → List Char → List Char → α} (h : ∀ g r, next g r = (tail? r).map (k g r)) :
    (few part).run next g s = (splitTail none s).map fun found => k g (s.drop found.1.length) found.2 := by
  induction hlength : s.length using Nat.strong_induction_on generalizing s with
  | _ n ih =>
    subst hlength
    rw [run_few, h]
    cases s with
    | nil => rfl
    | cons c s =>
        cases htail : tail? (c :: s) with
        | some u =>
            rw [splitTail, endOutside?, if_neg (by simp), htail]
            rfl
        | none =>
            have hc : c ≠ '>' := by
              rintro rfl
              cases htail
            have hsplit : splitTail none (c :: s) =
                (splitTail (quoteAfter none c) s).map fun found => (c :: found.1, found.2) := by
              rw [splitTail, endOutside?, if_neg (by simp), htail]
            rw [run_part hc, hsplit]
            split
            next hquote =>
              have hafter : quoteAfter none c = some c := if_pos (by simpa using hquote)
              rw [hafter]
              cases hcut : cutAt [c] s with
              | none =>
                  rw [splitTail_unclosed (Text.cutAt_singleton_eq_none_iff.mp hcut)]
                  rfl
              | some found =>
                  obtain ⟨v, rest⟩ := found
                  obtain ⟨rfl, hv⟩ := Text.cutAt_singleton_iff.mp hcut
                  have hless : rest.length < (c :: (v ++ c :: rest)).length := by simp; omega
                  rw [Option.bind_some, again_of_lt hless, ih _ hless rfl, splitTail_quoted hv, Option.map_map,
                    Option.map_map]
                  refine Option.map_congr fun found _ => ?_
                  have hdrop : (c :: (v ++ c :: rest)).drop (c :: (v ++ c :: found.1)).length =
                      rest.drop found.1.length := by
                    rw [List.length_cons, List.drop_succ_cons, List.length_append, ← List.drop_drop, List.drop_left]
                    rfl
                  exact congrArg (k g · found.2) hdrop.symm
            next hquote =>
              have hafter : quoteAfter none c = none := if_neg (by simpa using hquote)
              rw [hafter, again_of_lt (Nat.lt_succ_self _), ih _ (Nat.lt_succ_self _) rfl, Option.map_map]
              rfl

/-- What stands between the name and the end of a tag matches as it is split. -/
theorem run_rest {f : Groups → List Char → α} : (group "attrs" (few part) ++ group "tail" tail).run
    (fun g rest => some (f g rest)) g s = (splitTail none s).map fun found =>
      f (g ++ [("attrs", found.1), ("tail", found.2)]) (s.drop (found.1.length + found.2.length)) := by
  have hnext (g : Groups) (r : List Char) :
      (group "tail" tail).run (fun g rest => some (f g rest)) (g ++ [("attrs", passed s r)]) r =
        (tail? r).map fun u => f (g ++ [("attrs", passed s r), ("tail", u)]) (r.drop u.length) := by
    rw [run_tail, Option.map_eq_bind]
    simp only [List.append_assoc]
    rfl
  rw [run_append, run_group, run_few_part hnext]
  refine Option.map_congr fun found hfound => ?_
  obtain ⟨attributes, ending⟩ := found
  obtain ⟨-, rest, hs⟩ := StartTag.splitTail_eq_some hfound
  rw [List.append_assoc] at hs
  have hpassed : passed s (s.drop attributes.length) = attributes := by
    rw [hs, List.drop_left, passed_append]
  rw [hpassed, List.drop_drop]

/-- The match of a start tag. -/
def matchOf (t : StartTag) (rest : List Char) : Match :=
  ⟨[("name", t.name), ("attrs", t.attributes), ("tail", t.tail)], t.text, rest⟩

/-- Characters in a row, as many as can be such that it is possible to go on. -/
theorem exists_of_run_many_one {p : Char → Bool} {a : α} (h : (many (one p)).run next g s = some a) :
    ∃ u rest, s = u ++ rest ∧ next g rest = some a ∧
      (rest = s.dropWhile p ∨ ∃ c t, rest = c :: t ∧ p c = true ∧ next g t = none) := by
  induction s with
  | nil =>
      rw [run_many, run_one_nil] at h
      exact ⟨[], [], rfl, h, .inl rfl⟩
  | cons c s ih =>
      rw [run_many, run_one_cons] at h
      by_cases hc : p c = true
      · rw [if_pos hc, again_of_lt (Nat.lt_succ_self _)] at h
        cases hmore : (many (one p)).run next g s with
        | some a' =>
            rw [hmore] at h
            obtain rfl : a' = a := Option.some.inj h
            obtain ⟨u, rest, rfl, hrest, hend⟩ := ih hmore
            refine ⟨c :: u, rest, rfl, hrest, hend.imp_left fun hall => ?_⟩
            rw [List.dropWhile_cons_of_pos hc]
            exact hall
        | none =>
            rw [hmore] at h
            have hnone : next g s = none := by
              rw [run_many] at hmore
              cases hround : (one p).run (again (many (one p)) next s) g s with
              | none => rwa [hround] at hmore
              | some a' =>
                  rw [hround] at hmore
                  cases hmore
            exact ⟨[], c :: s, rfl, h, .inr ⟨c, s, rfl, hc, hnone⟩⟩
      · rw [if_neg hc] at h
        exact ⟨[], c :: s, rfl, h, .inl (List.dropWhile_cons_of_neg hc).symm⟩

/-- What stands behind the first letter of a name matches to the end of the tag. -/
theorem first_tag_cons (r : List Char) {c : Char} (hc : isLetter c = true) :
    let found (g : Groups) (rest : List Char) : Option Match := (splitTail none rest).map fun ending =>
      ⟨g ++ [("name", passed (c :: r) rest), ("attrs", ending.1), ("tail", ending.2)],
        passed ('<' :: c :: r) (rest.drop (ending.1.length + ending.2.length)),
        rest.drop (ending.1.length + ending.2.length)⟩
    tag.first ('<' :: c :: r) = (many (one StartTag.isNameChar)).run found [] r := by
  intro found
  rw [first, tag, run_append, run_char_self, run_append, run_group, run_append, run_one_cons, if_pos hc]
  refine congrFun (congrFun (congrArg (many (one StartTag.isNameChar)).run ?_) []) r
  funext g rest
  rw [run_rest]
  simp only [List.append_assoc]
  rfl

/-- A tag matches as it is read. -/
theorem first_tag_of_read? {t : StartTag} (h : read? s = some t) :
    tag.first s = some (matchOf t (s.drop t.text.length)) := by
  unfold read? at h
  split at h
  next c r =>
    split at h
    next hc =>
      rw [List.span_eq_takeWhile_dropWhile] at h
      obtain ⟨⟨attributes, ending⟩, hsplit, rfl⟩ := Option.map_eq_some_iff.mp h
      obtain ⟨-, rest, hrest⟩ := StartTag.splitTail_eq_some hsplit
      have hr := List.takeWhile_append_dropWhile (p := StartTag.isNameChar) (l := r)
      have hname : passed (c :: r) (r.dropWhile StartTag.isNameChar) = c :: r.takeWhile StartTag.isNameChar := by
        conv_lhs => rw [← hr, ← List.cons_append]
        rw [hr]
        exact passed_append _ _
      have htext : '<' :: c :: r =
          (⟨c :: r.takeWhile StartTag.isNameChar, attributes, ending⟩ : StartTag).text ++ rest := by
        conv_lhs => rw [← hr, hrest]
        simp [StartTag.text]
      have hleft : (r.dropWhile StartTag.isNameChar).drop (attributes.length + ending.length) = rest := by
        rw [hrest, ← List.length_append, List.drop_left]
      rw [first_tag_cons r hc, run_many_one_of_isSome (by rw [hsplit]; rfl), hsplit, Option.map_some, hname, hleft,
        htext, passed_append, List.drop_left]
      rfl
    next => cases h
  next => cases h

theorem first_tag_eq_none (h : ∀ c r, s = '<' :: c :: r → isLetter c = false) : tag.first s = none := by
  cases s with
  | nil => rfl
  | cons d s =>
      by_cases hd : '<' = d
      · subst hd
        rw [first, tag, run_append, run_char_self, run_append, run_group, run_append]
        cases s with
        | nil => rfl
        | cons c r => rw [run_one_cons, h c r rfl, if_neg Bool.false_ne_true]
      · rw [first, tag, run_append, run_char_of_ne hd]

/-- A character of a name is passed, unless it is a quote. -/
theorem splitTail_cons_of_isNameChar {c : Char} (hc : StartTag.isNameChar c = true) (hquote : ¬ (c = '"' ∨ c = '\''))
    (t : List Char) : splitTail none (c :: t) = (splitTail none t).map fun found => (c :: found.1, found.2) := by
  simp only [StartTag.isNameChar, Bool.not_eq_true', Bool.or_eq_false_iff] at hc
  obtain ⟨⟨hblank, hslash⟩, hclose⟩ := hc
  have htail : tail? (c :: t) = none := by
    have hblank : ¬ isBlank c = true := by rw [hblank]; exact Bool.false_ne_true
    unfold tail?
    rw [List.span_eq_takeWhile_dropWhile, List.takeWhile_cons_of_neg hblank, List.dropWhile_cons_of_neg hblank]
    dsimp only
    split
    next heq => exact absurd (List.cons.inj heq).1 (beq_eq_false_iff_ne.mp hclose)
    next heq => exact absurd (List.cons.inj heq).1 (beq_eq_false_iff_ne.mp hslash)
    next => rfl
  have hafter : quoteAfter none c = none := if_neg (by simpa using hquote)
  rw [splitTail, endOutside?, if_neg (by simp), htail, hafter]

/-- What matches though it is not read has given back some of the name, and a quote stands behind the name. -/
theorem quote_of_first_tag (h : read? s = none) {m : Match} (hm : tag.first s = some m) :
    ∃ name quote rest others, s = '<' :: (name ++ quote :: rest) ∧ (quote = '"' ∨ quote = '\'') ∧
      m.groups = ("name", name) :: others := by
  have hstart : ∃ c r, s = '<' :: c :: r ∧ isLetter c = true := by
    by_contra hno
    rw [first_tag_eq_none fun c r hs => Bool.eq_false_iff.mpr fun hc => hno ⟨c, r, hs, hc⟩] at hm
    cases hm
  obtain ⟨c, r, rfl, hc⟩ := hstart
  rw [read?, if_pos hc, List.span_eq_takeWhile_dropWhile] at h
  have hwhole : splitTail none (r.dropWhile StartTag.isNameChar) = none := Option.map_eq_none_iff.mp h
  rw [first_tag_cons r hc] at hm
  obtain ⟨u, rest, rfl, hfound, hall | ⟨quote, t, rfl, hquote, hnone⟩⟩ := exists_of_run_many_one hm
  · rw [hall, hwhole] at hfound
    cases hfound
  · obtain ⟨ending, -, rfl⟩ := Option.map_eq_some_iff.mp hfound
    have hisQuote : quote = '"' ∨ quote = '\'' := by
      by_contra hno
      rw [splitTail_cons_of_isNameChar hquote hno, Option.map_eq_none_iff.mp hnone] at hfound
      cases hfound
    exact ⟨c :: u, quote, t, _, rfl, hisQuote, by rw [← List.cons_append, passed_append]; rfl⟩

end Tag

section Attributes

/-- What stands behind an equals sign matches as it is read. -/
theorem run_value {f : Groups → List Char → α} :
    value.run (fun g rest => some (f g rest)) g s = (value? s).map (f g) := by
  have hbare : (run1 fun c => !(isBlank c || c == '>')).run (fun g rest => some (f g rest)) g s =
      (if (s.takeWhile fun c => !(isBlank c || c == '>')).isEmpty then none
        else some (s.dropWhile fun c => !(isBlank c || c == '>'))).map (f g) := by
    rw [run_run1_of_isSome fun _ _ => rfl]
    split <;> rfl
  have hquoted (found : Option (List Char × List Char)) (bare : Option (List Char)) :
      ((found.bind fun found => some (f g found.2)).orElse fun _ => bare.map (f g)) =
        ((found.map (·.2)).orElse fun _ => bare).map (f g) := by
    cases found <;> rfl
  rw [value, run_or, run_or, hbare]
  unfold value?
  rw [List.span_eq_takeWhile_dropWhile]
  dsimp only
  generalize (if (s.takeWhile fun c => !(isBlank c || c == '>')).isEmpty then none
    else some (s.dropWhile fun c => !(isBlank c || c == '>'))) = bare
  split
  next r =>
    rw [run_quotedBy_self, run_quotedBy_of_ne (by decide), ← hquoted]
    rfl
  next r =>
    rw [run_quotedBy_of_ne (by decide), run_quotedBy_self, ← hquoted]
    rfl
  next hdouble hsingle =>
    cases s with
    | nil => rfl
    | cons c r =>
        rw [run_quotedBy_of_ne fun heq => hdouble r (by rw [heq]),
          run_quotedBy_of_ne fun heq => hsingle r (by rw [heq])]
        rfl

theorem run_value_of_isBlank {c : Char} (hc : isBlank c = true) (t : List Char) : value.run next g (c :: t) = none := by
  have hne {d : Char} (hd : isBlank d = false) : d ≠ c := by
    rintro rfl
    rw [hc] at hd
    cases hd
  rw [value, run_or, run_or, run_quotedBy_of_ne (hne (by decide)), run_quotedBy_of_ne (hne (by decide)), run1,
    run_append, run_one_cons, if_neg (by simp [hc])]
  rfl

theorem attribute?_eq (s : List Char) : attribute? s =
    let name := (s.dropWhile isBlank).takeWhile StartTag.isAttributeChar
    let rest := (s.dropWhile isBlank).dropWhile StartTag.isAttributeChar
    if name.isEmpty then none
    else some (name, ((after? ['='] (rest.dropWhile isBlank)).bind fun r => value? (r.dropWhile isBlank)).getD rest) := by
  unfold attribute?
  rw [List.span_eq_takeWhile_dropWhile]
  dsimp only
  split
  next => rfl
  next =>
    split
    next r hr => rw [hr, Text.after?_cons_self, Option.bind_some]
    next hno =>
      cases hafter : after? ['='] (((s.dropWhile isBlank).dropWhile StartTag.isAttributeChar).dropWhile isBlank) with
      | none => rfl
      | some r => exact absurd (Text.after?_eq_some_iff.mp hafter) (hno r)

/-- An attribute matches as it is read. -/
theorem run_attr {f : Groups → List Char → α} :
    attr.run (fun g rest => some (f g rest)) g s = (attribute? s).map fun found =>
      f (g ++ [("lead", s.takeWhile isBlank), ("name", found.1)]) found.2 := by
  have hlink (g : Groups) (s : List Char) :
      (opt (many (one isBlank) ++ (text ['='] ++ (many (one isBlank) ++ value)))).run
        (fun g rest => some (f g rest)) g s =
        some (f g (((after? ['='] (s.dropWhile isBlank)).bind fun r => value? (r.dropWhile isBlank)).getD s)) := by
    rw [opt, run_or, run_nil_text, run_blanks_mark (by decide), run_text]
    cases after? ['='] (s.dropWhile isBlank) with
    | none => rfl
    | some r =>
        rw [Option.bind_some, Option.bind_some, run_append,
          run_many_one fun _ _ t hc => run_value_of_isBlank hc t, run_value]
        cases value? (r.dropWhile isBlank) <;> rfl
  have hstop (r : Regex) {next : Groups → List Char → Option α} {g : Groups} {c : Char} {t : List Char}
      (hc : isBlank c = true) : (group "name" (run1 StartTag.isAttributeChar) ++ r).run next g (c :: t) = none := by
    rw [run_append, run_group, run1, run_append, run_one_cons, if_neg (by simp [StartTag.isAttributeChar, hc])]
  rw [attribute?_eq, attr, run_append, run_group, run_many_one fun g c t hc => by exact hstop _ hc, run_append,
    run_group, run_run1_of_isSome fun g t => by rw [hlink]; rfl, hlink, passed_dropWhile, passed_dropWhile]
  dsimp only
  split
  next => rfl
  next =>
    rw [List.append_assoc, List.singleton_append]
    rfl

theorem length_value? {rest : List Char} (h : value? s = some rest) : rest.length ≤ s.length := by
  have hbare : ∀ rest, (if (s.takeWhile fun c => !(isBlank c || c == '>')).isEmpty then none
      else some (s.dropWhile fun c => !(isBlank c || c == '>'))) = some rest → rest.length ≤ s.length := by
    intro rest h
    split at h
    next => cases h
    next =>
      cases h
      exact (List.dropWhile_suffix _).length_le
  unfold value? at h
  rw [List.span_eq_takeWhile_dropWhile] at h
  dsimp only at h
  generalize (if (s.takeWhile fun c => !(isBlank c || c == '>')).isEmpty then none
    else some (s.dropWhile fun c => !(isBlank c || c == '>'))) = bare at hbare h
  have hquoted {q : Char} {r : List Char} (hs : s = q :: r)
      (h : (((cutAt [q] r).map (·.2)).orElse fun _ => bare) = some rest) : rest.length ≤ s.length := by
    cases hcut : cutAt [q] r with
    | none =>
        rw [hcut] at h
        exact hbare rest h
    | some found =>
        rw [hcut] at h
        cases h
        rw [hs, Text.cutAt_eq_some hcut]
        simp
        omega
  split at h
  next r => exact hquoted rfl h
  next r => exact hquoted rfl h
  next => exact hbare rest h

/-- An attribute takes something of the text. -/
theorem length_attribute? {found : List Char × List Char} (h : attribute? s = some found) :
    found.2.length < s.length := by
  unfold attribute? at h
  rw [List.span_eq_takeWhile_dropWhile] at h
  dsimp only at h
  split at h
  next => cases h
  next hname =>
    have hsplit := congrArg List.length
      (List.takeWhile_append_dropWhile (p := StartTag.isAttributeChar) (l := s.dropWhile isBlank))
    have hpos : 0 < ((s.dropWhile isBlank).takeWhile StartTag.isAttributeChar).length :=
      List.length_pos_iff.mpr fun hnil => hname (List.isEmpty_iff.mpr hnil)
    have hblanks := (List.dropWhile_suffix (l := s) isBlank).length_le
    rw [List.length_append] at hsplit
    split at h
    next r hr =>
      cases h
      have hlink := (List.dropWhile_suffix isBlank
        (l := (s.dropWhile isBlank).dropWhile StartTag.isAttributeChar)).length_le
      rw [hr, List.length_cons] at hlink
      cases hvalue : value? (r.dropWhile isBlank) with
      | none =>
          rw [Option.getD_none]
          dsimp only
          omega
      | some rest =>
          have hrest := (length_value? hvalue).trans (List.dropWhile_suffix (l := r) isBlank).length_le
          rw [Option.getD_some]
          dsimp only
          omega
    next =>
      cases h
      dsimp only
      omega

theorem first_attr : attr.first s = (attribute? s).map fun found =>
    ⟨[("lead", s.takeWhile isBlank), ("name", found.1)], passed s found.2, found.2⟩ := by
  rw [first, run_attr]
  rfl

/-- What a finding leaves: all of it, unless it is an attribute of the name. -/
def keptOf (target : List Char) (found : Text.Regex.Finding) : List Char :=
  found.gap ++ if (found.groups.lookup "name").any (fun name => lower name == target) then [] else found.text

/-- What is left of a text without the attributes of a name: all that stands in no match of that name. -/
def render (target : List Char) (found : List Text.Regex.Finding × List Char) : List Char :=
  found.1.flatMap (keptOf target) ++ found.2

theorem render_findFrom_cons {target : List Char} {c : Char} {t : List Char} (h : attr.first (c :: t) = none)
    (n : Nat) : render target (attr.findFrom (n + 1) (c :: t)) = c :: render target (attr.findFrom (n + 1) t) := by
  rw [findFrom, findFrom, search, h]
  dsimp only
  cases attr.search t with
  | none => rfl
  | some found => rfl

/-- Attributes of a name are taken out as the matches of that name are. -/
theorem without_eq (name s : List Char) : without name s = render (lower name) (attr.findAll s) := by
  suffices hfuel : ∀ fuel n, s.length ≤ fuel → s.length < n →
      withoutFrom (lower name) fuel s = render (lower name) (attr.findFrom n s) from
    hfuel _ _ (Nat.le_refl _) (Nat.lt_succ_self _)
  induction hlength : s.length using Nat.strong_induction_on generalizing s with
  | _ m ih =>
    subst hlength
    intro fuel n hfuel hn
    obtain ⟨n, rfl⟩ : ∃ k, n = k + 1 := ⟨n - 1, by omega⟩
    cases s with
    | nil =>
        have hnone : attr.first [] = none := by rw [first_attr]; rfl
        rw [StartTag.withoutFrom_nil, findFrom, search, hnone]
        rfl
    | cons c t =>
        have hlength : (c :: t).length = t.length + 1 := List.length_cons
        obtain ⟨fuel, rfl⟩ : ∃ k, fuel = k + 1 := ⟨fuel - 1, by omega⟩
        rw [StartTag.withoutFrom_cons]
        cases hread : attribute? (c :: t) with
        | none =>
            have hnone : attr.first (c :: t) = none := by rw [first_attr, hread]; rfl
            rw [render_findFrom_cons hnone, ih t.length (Nat.lt_succ_self _) t rfl fuel (n + 1) (by omega) (by omega)]
        | some found =>
            obtain ⟨found, rest⟩ := found
            have hfirst : attr.first (c :: t) =
                some ⟨[("lead", (c :: t).takeWhile isBlank), ("name", found)], passed (c :: t) rest, rest⟩ := by
              rw [first_attr, hread]
              rfl
            have hless : rest.length < (c :: t).length := length_attribute? hread
            rw [findFrom, search, hfirst]
            dsimp only
            rw [ih rest.length hless rest rfl fuel n (by rw [List.length_cons] at hless; omega)
              (by rw [List.length_cons] at hless; omega)]
            rw [render, render, List.flatMap_cons, List.append_assoc]
            rfl

end Attributes

end Expression

end MarkupIds.Html
