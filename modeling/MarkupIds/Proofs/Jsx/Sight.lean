import MarkupIds.Proofs.Jsx.Outline

/-! Every program of an outline is read as its outline is. What a pattern answers along the outline it answers in the
text, it goes over the same pieces, and in a whole program the start tags that it finds are those written there. -/

namespace MarkupIds.Jsx

open Grammar (Pattern Reached Answers Founded)
open Piece

/-- What is left of a pattern without the type parameters that it may start with. -/
theorem Known.withoutGeneric {a b : Part} (h : Known a) (hb : Outline.withoutGeneric a = some b) : Known b := by
  induction a generalizing b with
  | seq c d ihc _ =>
      obtain ⟨hknownC, hknownD⟩ := h.seq
      rw [Outline.withoutGeneric] at hb
      split at hb
      next =>
        cases hb
        exact hknownD
      next =>
        obtain ⟨e, he, rfl⟩ := Option.map_eq_some_iff.mp hb
        have hknownE := ihc hknownC he
        exact ⟨List.forall_mem_append.mpr ⟨hknownE.foreseen, hknownD.foreseen⟩,
          List.forall_mem_append.mpr ⟨hknownE.starts, hknownD.starts⟩⟩
  | _ => cases hb

section Sight

variable {whole : Bool} {z : List Char}

/-- The reading of some pieces, with `z` behind them, has come as far as a reading along their outline. -/
structure Stands (z : List Char) (s : Sight) (x : Reached Kind) (pieces : List Piece) : Prop where
  marks : s.rest = pieces.map mark
  text : x.rest = textOf pieces ++ z
  found : allFaded x.found = s.found
  flag : ∀ b, s.flag = some b → x.flag = b
  reads : ∀ w, .tag w ∈ pieces → w.Reads

/-- A reading has gone over some pieces; in a whole program it has found their start tags, and no others inside of these. -/
structure Passes (whole : Bool) (x : Reached Kind) (taken : List Piece) (y : Reached Kind) : Prop where
  offset : y.offset = x.offset + (textOf taken).length
  found : ∃ found, y.found = found.reverse ++ x.found ∧ (whole = true →
    tagsFound found = placed x.offset taken ∧ hiddenTags found = [])

theorem Passes.refl (x : Reached Kind) (flag : Bool) : Passes whole x [] { x with flag } :=
  ⟨rfl, [], rfl, fun _ => ⟨rfl, rfl⟩⟩

theorem Passes.trans {x y u : Reached Kind} {taken further : List Piece} (h : Passes whole x taken y)
    (h' : Passes whole y further u) : Passes whole x (taken ++ further) u := by
  obtain ⟨hoffset, found, hfound, htags⟩ := h
  obtain ⟨hoffset', found', hfound', htags'⟩ := h'
  refine ⟨?_, found ++ found', ?_, fun hwhole => ?_⟩
  · rw [hoffset', hoffset, textOf_append, List.length_append, Nat.add_assoc]
  · rw [hfound', hfound, List.reverse_append, List.append_assoc]
  · rw [tagsFound_append, (htags hwhole).1, (htags' hwhole).1, placed_append, hoffset, hiddenTags_append,
      (htags hwhole).2, (htags' hwhole).2]
    exact ⟨rfl, rfl⟩

/-- What a reading answers is told by its outline. -/
def Follows (whole : Bool) (z : List Char) (a : Part) (x : Reached Kind) (pieces : List Piece) : Option Sight → Prop
  | none => Answers grammar a x none
  | some t => ∃ taken left y, pieces = taken ++ left ∧ Answers grammar a x (some y) ∧ Stands z t y left ∧
      Passes whole x taken y

variable {s t : Sight} {x : Reached Kind} {pieces : List Piece} {a b : Part} {r : Option Sight}

namespace Stands

/-- Characters are read, and nothing is found in them. -/
theorem chars (whole : Bool) {cs : List Char} {left : List Piece} (h : Stands z s x (cs.map .char ++ left)) :
    x.rest = cs ++ (textOf left ++ z) ∧
      Stands z { s with rest := left.map mark } { x with offset := x.offset + cs.length, rest := textOf left ++ z } left ∧
      Passes whole x (cs.map .char) { x with offset := x.offset + cs.length, rest := textOf left ++ z } := by
  refine ⟨?_, ⟨rfl, rfl, h.found, h.flag, fun w hw => h.reads w (List.mem_append_right _ hw)⟩, ?_, [], rfl, ?_⟩
  · rw [h.text, textOf_append, textOf_chars, List.append_assoc]
  · rw [textOf_chars]
  · intro _
    rw [placed_chars]
    exact ⟨rfl, rfl⟩

/-- A pattern that takes characters and leaves all else as it is. -/
theorem follows_chars {cs : List Char} {left : List Piece} (h : Stands z s x (cs.map .char ++ left))
    (ha : x.rest = cs ++ (textOf left ++ z) → Answers grammar a x
      (some { x with offset := x.offset + cs.length, rest := textOf left ++ z })) :
    Follows whole z a x (cs.map .char ++ left) (some { s with rest := left.map mark }) := by
  obtain ⟨hrest, hstands, hpasses⟩ := h.chars whole
  exact ⟨_, left, _, rfl, ha hrest, hstands, hpasses⟩

/-- A pattern that takes nothing. -/
theorem follows_here (h : Stands z s x pieces) (ha : Answers grammar a x (some x)) :
    Follows whole z a x pieces (some s) := ⟨[], pieces, x, rfl, ha, h, .refl x x.flag⟩

/-- What a run of characters leaves. -/
theorem exists_of_behindRun {p : Char → Bool} {rest : List Mark} (hz : whole = true → z = [])
    (h : Outline.behindRun whole p (pieces.map mark) = some rest) :
    ∃ (cs : List Char) (left : List Piece), pieces = cs.map .char ++ left ∧
      rest = left.map mark ∧ (∀ c ∈ cs, p c = true) ∧ ∀ c, (textOf left ++ z).head? = some c → p c = false := by
  induction pieces with
  | nil =>
      rw [List.map_nil, Outline.behindRun] at h
      split at h
      next hwhole =>
        cases h
        refine ⟨[], [], rfl, rfl, nofun, fun c hc => ?_⟩
        rw [hz hwhole] at hc
        cases hc
      next => cases h
  | cons piece pieces ih =>
      cases piece with
      | char c =>
          rw [List.map_cons, mark, Outline.behindRun] at h
          split at h
          next hc =>
            obtain ⟨cs, left, hpieces, hrest, hcs, hleft⟩ := ih h
            exact ⟨c :: cs, left, congrArg (Piece.char c :: ·) hpieces, hrest, List.forall_mem_cons.mpr ⟨hc, hcs⟩, hleft⟩
          next hc =>
            cases h
            refine ⟨[], .char c :: pieces, rfl, rfl, nofun, fun d hd => ?_⟩
            obtain rfl := Option.some.inj hd
            exact Bool.eq_false_iff.mpr hc
      | tag w =>
          rw [List.map_cons, mark, Outline.behindRun] at h
          split at h
          next => cases h
          next hbracket =>
            cases h
            refine ⟨[], .tag w :: pieces, rfl, rfl, nofun, fun d hd => ?_⟩
            obtain rfl := Option.some.inj hd
            exact Bool.eq_false_iff.mpr hbracket

theorem follows_run (hz : whole = true → z = []) (hs : Stands z s x pieces) {p : Char → Bool} {rest : List Mark}
    (h : Outline.behindRun whole p s.rest = some rest) : Follows whole z (.run p) x pieces (some { s with rest }) := by
  rw [hs.marks] at h
  obtain ⟨cs, left, rfl, rfl, hcs, hleft⟩ := exists_of_behindRun hz h
  refine hs.follows_chars fun hrest => ?_
  have hrun : Answers grammar (.run p) x _ := .run p
  rwa [hrest, Text.takeWhile_append_eq hcs hleft, Text.dropWhile_append_eq hcs hleft] at hrun

/-- A text that stands there is there with its characters. -/
theorem exists_of_behindText {literal : List Char} {rest : List Mark}
    (h : Outline.behindText whole literal (pieces.map mark) = some (some rest)) :
    ∃ left : List Piece, pieces = literal.map .char ++ left ∧ rest = left.map mark := by
  induction literal generalizing pieces with
  | nil =>
      cases h
      exact ⟨pieces, rfl, rfl⟩
  | cons c literal ih =>
      match pieces with
      | [] =>
          rw [List.map_nil, Outline.behindText] at h
          split at h <;> cases h
      | .char d :: pieces =>
          rw [List.map_cons, mark, Outline.behindText] at h
          split at h
          next hsame =>
            obtain ⟨left, rfl, hleft⟩ := ih h
            exact ⟨left, hsame ▸ rfl, hleft⟩
          next => cases h
      | .tag w :: pieces =>
          unfold Outline.behindText at h
          simp only [List.map_cons, mark] at h
          split at h
          · split at h
            · cases h
            · split at h <;> cases h
          · cases h

theorem not_prefix_of_behindText {literal : List Char} (hz : whole = true → z = [])
    (hreads : ∀ w, .tag w ∈ pieces → w.Reads) (h : Outline.behindText whole literal (pieces.map mark) = some none) :
    ¬ literal <+: textOf pieces ++ z := by
  induction literal generalizing pieces with
  | nil => cases h
  | cons c literal ih =>
      match pieces, hreads with
      | [], _ =>
          rw [List.map_nil, Outline.behindText] at h
          split at h
          next hwhole =>
            rw [hz hwhole]
            exact fun hprefix => nomatch List.prefix_nil.mp hprefix
          next => cases h
      | .char d :: pieces, hreads =>
          rw [List.map_cons, mark, Outline.behindText] at h
          split at h
          next =>
            have hrest := ih (fun w hw => hreads w (List.mem_cons_of_mem _ hw)) h
            exact fun hprefix => hrest (List.cons_prefix_cons.mp hprefix).2
          next hdiffer => exact fun hprefix => hdiffer (List.cons_prefix_cons.mp hprefix).1
      | .tag w :: pieces, hreads =>
          obtain ⟨e, further, htext, he⟩ := (hreads w List.mem_cons_self).start
          have hpieces : textOf (.tag w :: pieces) ++ z = '<' :: e :: (further ++ textOf pieces ++ z) := by
            rw [textOf, List.flatMap_cons, Piece.text, htext]
            rfl
          rw [hpieces]
          unfold Outline.behindText at h
          simp only [List.map_cons, mark] at h
          split at h
          next =>
            split at h
            next => cases h
            next d literal =>
              split at h
              next => cases h
              next hd =>
                intro hprefix
                obtain ⟨hsame, -⟩ := List.cons_prefix_cons.mp (List.cons_prefix_cons.mp hprefix).2
                exact hd (hsame ▸ he)
          next hdiffer => exact fun hprefix => hdiffer (List.cons_prefix_cons.mp hprefix).1

theorem follows_text (hz : whole = true → z = []) (hs : Stands z s x pieces) {literal : List Char}
    {q : Option (List Mark)} (h : Outline.behindText whole literal s.rest = some q) :
    Follows whole z (.text literal) x pieces (q.map fun rest => { s with rest }) := by
  rw [hs.marks] at h
  cases q with
  | none =>
      refine Answers.text_none (Bool.eq_false_iff.mpr fun hprefix => not_prefix_of_behindText hz hs.reads h ?_)
      rw [← hs.text]
      exact List.isPrefixOf_iff_prefix.mp hprefix
  | some rest =>
      obtain ⟨left, rfl, rfl⟩ := exists_of_behindText h
      exact hs.follows_chars Answers.text

theorem follows_char (hz : whole = true → z = []) (hs : Stands z s x pieces) {p : Char → Bool} {fuel : Nat}
    (h : Outline.look whole (fuel + 1) (.char p) s = some r) : Follows whole z (.char p) x pieces r := by
  have hrest := hs.text
  rw [Outline.look, hs.marks] at h
  cases pieces with
  | nil =>
      rw [List.map_nil] at h
      simp only at h
      split at h
      next hwhole =>
        cases h
        refine Answers.char_none fun c hc => ?_
        rw [hrest, hz hwhole] at hc
        cases hc
      next => cases h
  | cons piece pieces =>
      cases piece with
      | char c =>
          simp only [List.map_cons, mark] at h
          split at h
          next hc =>
            cases h
            have hc' : Stands z s x ([c].map .char ++ pieces) := hs
            exact hc'.follows_chars fun hrest => Answers.char hrest hc
          next hc =>
            cases h
            refine Answers.char_none fun d hd => ?_
            rw [hrest] at hd
            obtain rfl := Option.some.inj hd
            exact Bool.eq_false_iff.mpr hc
      | tag w =>
          simp only [List.map_cons, mark] at h
          split at h
          next => cases h
          next hbracket =>
            cases h
            refine Answers.char_none fun d hd => ?_
            rw [hrest] at hd
            obtain rfl := Option.some.inj hd
            exact Bool.eq_false_iff.mpr hbracket

/-- What an outline tells of a property is so. -/
theorem given_of_holds (hz : whole = true → z = []) (hs : Stands z s x pieces) {p : List Char → Bool} {q : Bool}
    (hp : Foresees p) (h : Outline.holds whole p s.rest = some q) : p x.rest = q := by
  have hsplit : ∀ pieces : List Piece, (∃ cs : List Char, pieces = cs.map .char) ∨
      ∃ (cs : List Char) (w : WrittenTag) (left : List Piece), pieces = cs.map .char ++ .tag w :: left := by
    intro pieces
    induction pieces with
    | nil => exact .inl ⟨[], rfl⟩
    | cons piece pieces ih =>
        cases piece with
        | tag w => exact .inr ⟨[], w, pieces, rfl⟩
        | char c =>
            rcases ih with ⟨cs, rfl⟩ | ⟨cs, w, left, rfl⟩
            · exact .inl ⟨c :: cs, rfl⟩
            · exact .inr ⟨c :: cs, w, left, rfl⟩
  have hleading (cs : List Char) (rest : List Mark) (hrest : Outline.leading rest = []) :
      Outline.leading ((cs.map Piece.char).map mark ++ rest) = cs := by
    induction cs with
    | nil => exact hrest
    | cons c cs ih => exact congrArg (c :: ·) ih
  have htext := hs.text
  rw [hs.marks] at h
  rcases hsplit pieces with ⟨cs, rfl⟩ | ⟨cs, w, left, rfl⟩
  · have hknown := hleading cs [] rfl
    rw [List.append_nil] at hknown
    rw [textOf_chars] at htext
    simp only [Outline.holds, hknown] at h
    have hdrop : ((cs.map Piece.char).map mark).drop cs.length = [] :=
      List.drop_eq_nil_of_le (by rw [List.length_map, List.length_map])
    simp only [hdrop] at h
    split at h
    next hor =>
      obtain rfl := Option.some.inj h
      rw [htext]
      rcases Bool.or_eq_true_iff.mp hor with hwhole | htelling
      · rw [hz hwhole, List.append_nil]
      · exact hp cs z htelling
    next => cases h
  · have hknown := hleading cs (.tag :: left.map mark) rfl
    have hmarks : (cs.map Piece.char ++ .tag w :: left).map mark = (cs.map Piece.char).map mark ++ .tag :: left.map mark := by
      rw [List.map_append, List.map_cons]
      rfl
    rw [hmarks] at h
    simp only [Outline.holds, hknown] at h
    have hdrop : ((cs.map Piece.char).map mark ++ .tag :: left.map mark).drop cs.length = .tag :: left.map mark := by
      have hlength : ((cs.map Piece.char).map mark).length = cs.length := by rw [List.length_map, List.length_map]
      rw [← hlength, List.drop_left]
    simp only [hdrop] at h
    split at h
    next htelling =>
      obtain rfl := Option.some.inj h
      have hrest : x.rest = cs ++ ['<'] ++ (w.name ++ w.parts.flatMap WrittenPart.text ++ textOf left ++ z) := by
        rw [htext, textOf_append, textOf_chars]
        simp only [textOf, List.flatMap_cons, Piece.text, WrittenTag.text, List.append_assoc, List.cons_append,
          List.nil_append]
      rw [hrest]
      exact hp _ _ htelling
    next => cases h

end Stands

namespace Follows

theorem left (ha : Follows whole z a x pieces (some t)) : Follows whole z (.alt a b) x pieces (some t) := by
  obtain ⟨taken, left, y, hpieces, hy, hstands, hpasses⟩ := ha
  exact ⟨taken, left, y, hpieces, .left hy, hstands, hpasses⟩

theorem right (ha : Follows whole z a x pieces none) (hb : Follows whole z b x pieces r) :
    Follows whole z (.alt a b) x pieces r := by
  cases r with
  | none => exact Answers.right ha hb
  | some t =>
      obtain ⟨taken, left, y, hpieces, hy, hstands, hpasses⟩ := hb
      exact ⟨taken, left, y, hpieces, .right ha hy, hstands, hpasses⟩

/-- What stands behind what has been read goes on from there. -/
theorem seq (ha : Follows whole z a x pieces (some t))
    (hb : ∀ {y left}, Stands z t y left → Follows whole z b y left r) : Follows whole z (.seq a b) x pieces r := by
  obtain ⟨taken, left, y, rfl, hy, hstands, hpasses⟩ := ha
  have hfurther := hb hstands
  cases r with
  | none => exact Answers.seq hy hfurther
  | some u =>
      obtain ⟨taken', left', y', rfl, hy', hstands', hpasses'⟩ := hfurther
      exact ⟨taken ++ taken', left', y', (List.append_assoc ..).symm, .seq hy hy', hstands', hpasses.trans hpasses'⟩

/-- A reading that is where it was has gone over no piece. -/
theorem many (hs : Stands z s x pieces) (ha : Follows whole z a x pieces (some t))
    (hmore : t.rest.length ≠ s.rest.length → ∀ {y left}, Stands z t y left → Follows whole z (.many a) y left r)
    (hsame : t.rest.length = s.rest.length → r = some t) : Follows whole z (.many a) x pieces r := by
  obtain ⟨taken, left, y, rfl, hy, hstands, hpasses⟩ := ha
  have hlengths : s.rest.length = taken.length + t.rest.length := by
    rw [hs.marks, hstands.marks, List.length_map, List.length_map, List.length_append]
  by_cases hlength : t.rest.length = s.rest.length
  · obtain rfl := hsame hlength
    obtain rfl : taken = [] := List.eq_nil_of_length_eq_zero (by omega)
    exact ⟨[], left, y, rfl, .many_last hy (by rw [hpasses.offset]; rfl), hstands, hpasses⟩
  · have hfurther := hmore hlength hstands
    have hoffset : y.offset ≠ x.offset := by
      intro hoffset
      rw [hpasses.offset] at hoffset
      have hnil : taken = [] := textOf_eq_nil (List.eq_nil_of_length_eq_zero (by omega))
      rw [hnil] at hlengths
      exact hlength (by rw [hlengths]; exact (Nat.zero_add _).symm)
    cases r with
    | none => exact Answers.many_more hy hoffset hfurther
    | some u =>
        obtain ⟨taken', left', y', rfl, hy', hstands', hpasses'⟩ := hfurther
        exact ⟨taken ++ taken', left', y', (List.append_assoc ..).symm, .many_more hy hoffset hy', hstands',
          hpasses.trans hpasses'⟩

/-- Marks that are all characters stand for these. -/
theorem exists_of_chars? {text : List Char} (h : Outline.chars? (pieces.map mark) = some text) :
    pieces = text.map .char := by
  induction pieces generalizing text with
  | nil =>
      cases h
      rfl
  | cons piece pieces ih =>
      cases piece with
      | char c =>
          obtain ⟨text, htext, rfl⟩ := Option.map_eq_some_iff.mp h
          exact congrArg (Piece.char c :: ·) (ih htext)
      | tag w => cases h

/-- The marks that a reading has gone over. -/
theorem take_marks {y : Reached Kind} {taken left : List Piece} (hs : Stands z s x (taken ++ left))
    (hy : Stands z t y left) : s.rest.take (s.rest.length - t.rest.length) = taken.map mark := by
  have hlength : s.rest.length - t.rest.length = (taken.map mark).length := by
    rw [hs.marks, hy.marks, List.length_map, List.length_map, List.length_map, List.length_append]
    omega
  rw [hlength, hs.marks, List.map_append, List.take_left]

theorem token {kind : Kind} {text : List Char} (hs : Stands z s x pieces) (ha : Follows whole z a x pieces (some t))
    (htext : Outline.chars? (s.rest.take (s.rest.length - t.rest.length)) = some text) :
    Follows whole z (.token kind a) x pieces (some { t with found := .leaf kind 0 0 text :: s.found }) := by
  obtain ⟨taken, left, y, rfl, hy, hstands, hpasses⟩ := ha
  rw [take_marks hs hstands] at htext
  obtain rfl := exists_of_chars? htext
  have htake : x.rest.take (y.offset - x.offset) = text := by
    rw [hpasses.offset, Nat.add_sub_cancel_left, hs.text, textOf_append, List.append_assoc, List.take_left, textOf_chars]
  refine ⟨text.map .char, left, _, rfl, .token kind hy, ⟨hstands.marks, hstands.text, ?_, hstands.flag, hstands.reads⟩,
    hpasses.offset, [_], rfl, fun _ => ?_⟩
  · rw [allFaded, faded, htake, hs.found]
  · rw [placed_chars]
    exact ⟨rfl, rfl⟩

theorem branch {kind : Kind} (hs : Stands z s x pieces)
    (ha : Follows whole z a { x with found := [] } pieces (some t))
    (hopening : whole = true → kind = .opening → tagOf t.found.reverse = none ∧
      ∃ text, Outline.chars? (s.rest.take (s.rest.length - t.rest.length)) = some text) :
    Follows whole z (.branch kind a) x pieces
      (some { t with found := faded (.branch kind 0 0 t.found.reverse) :: s.found }) := by
  obtain ⟨taken, left, y, rfl, hy, hstands, hoffset, found, hfound, htags⟩ := ha
  rw [List.append_nil] at hfound
  have hparts : y.found.reverse = found := by rw [hfound, List.reverse_reverse]
  have hfaded : t.found.reverse = allFaded found := by rw [← hstands.found, ← allFaded_reverse, hparts]
  refine ⟨taken, left, _, rfl, .branch kind hy, ⟨hstands.marks, hstands.text, ?_, hstands.flag, hstands.reads⟩,
    hoffset, [_], rfl, fun hwhole => ?_⟩
  · rw [allFaded, hs.found, hparts, hfaded, faded_branch]
  · obtain ⟨htagsHere, hhidden⟩ := htags hwhole
    rw [tagsFound, tagsFound, List.append_nil, tagsFoundIn, hiddenTags, hiddenTags, List.append_nil, hparts]
    by_cases hkind : kind = .opening
    · obtain ⟨hname, text, htext⟩ := hopening hwhole hkind
      rw [take_marks hs hstands] at htext
      have hnone : tagOf found = none := by
        rw [hfaded] at hname
        rw [← Option.isNone_iff_eq_none, ← Option.not_isSome, ← isSome_tagOf_allFaded, hname]
        rfl
      rw [exists_of_chars? htext, placed_chars] at htagsHere ⊢
      subst hkind
      exact ⟨congrArg Option.toList hnone, elementTags_eq_nil htagsHere hhidden⟩
    · rw [if_neg hkind]
      exact ⟨htagsHere, by cases kind <;> first | contradiction | exact hhidden⟩

/-- The end of a start tag, where an outline tells it. -/
theorem exists_of_tagEnd {left : List Piece} (h : Outline.tagEnd (left.map mark) ≠ .unknown) :
    ∃ (blanks : List Char), (∀ c ∈ blanks, isSpace c = true) ∧
      ((∃ further : List Piece, left = blanks.map .char ++ .char '>' :: further ∧
        Outline.tagEnd (left.map mark) = .opens (further.map mark)) ∨
      ∃ further : List Piece, left = blanks.map .char ++ .char '/' :: .char '>' :: further ∧
        Outline.tagEnd (left.map mark) = .closes) := by
  induction left with
  | nil => exact absurd rfl h
  | cons piece left ih =>
      cases piece with
      | tag w => exact absurd rfl h
      | char c =>
          by_cases hc : isSpace c = true
          · have hskip : Outline.tagEnd ((Piece.char c :: left).map mark) = Outline.tagEnd (left.map mark) := by
              have hblank : Outline.isBlank (mark (.char c)) = true := hc
              rw [Outline.tagEnd, List.map_cons, List.dropWhile_cons_of_pos hblank, Outline.tagEnd]
            rw [hskip] at h ⊢
            obtain ⟨blanks, hblanks, ⟨further, rfl, hend⟩ | ⟨further, rfl, hend⟩⟩ := ih h
            · exact ⟨c :: blanks, List.forall_mem_cons.mpr ⟨hc, hblanks⟩, .inl ⟨further, rfl, hend⟩⟩
            · exact ⟨c :: blanks, List.forall_mem_cons.mpr ⟨hc, hblanks⟩, .inr ⟨further, rfl, hend⟩⟩
          · have hblank : ¬ Outline.isBlank (mark (.char c)) = true := hc
            rw [Outline.tagEnd, List.map_cons, List.dropWhile_cons_of_neg hblank] at h ⊢
            refine ⟨[], nofun, ?_⟩
            split at h
            next behind hmarks =>
              obtain ⟨hc, rfl⟩ := List.cons.inj hmarks
              obtain rfl := Mark.char.inj hc
              exact .inl ⟨left, rfl, rfl⟩
            next behind hmarks =>
              obtain ⟨hc, hleft⟩ := List.cons.inj hmarks
              obtain rfl := Mark.char.inj hc
              cases left with
              | nil => cases hleft
              | cons piece further =>
                  obtain ⟨hpiece, -⟩ := List.cons.inj hleft
                  cases piece with
                  | tag w => cases hpiece
                  | char d =>
                      obtain rfl : d = '>' := Mark.char.inj hpiece
                      exact .inr ⟨further, rfl, rfl⟩
            next => exact absurd rfl h

theorem isTagEnd_of_tagEnd {left : List Piece} (h : Outline.tagEnd (left.map mark) ≠ .unknown) (z : List Char) :
    IsTagEnd (textOf left ++ z) := by
  obtain ⟨blanks, hblanks, ⟨further, rfl, -⟩ | ⟨further, rfl, -⟩⟩ := exists_of_tagEnd h
  · refine ⟨blanks, textOf further ++ z, hblanks, .inl ?_⟩
    rw [textOf_append, textOf_chars, List.append_assoc]
    rfl
  · refine ⟨blanks, textOf further ++ z, hblanks, .inr ?_⟩
    rw [textOf_append, textOf_chars, List.append_assoc]
    rfl

end Follows

/-- A start tag is read as that of an element. -/
theorem follows_opening (hs : Stands z s x pieces) (htag : s.rest.head? = some .tag)
    (hend : Outline.tagEnd s.rest.tail ≠ .unknown) : Follows whole z (.branch .opening openingParts) x pieces
      (some { rest := s.rest.tail, found := .branch .opening 0 0 [.leaf .name 0 0 []] :: s.found, flag := none }) := by
  obtain ⟨w, left, rfl⟩ : ∃ w left, pieces = .tag w :: left := by
    rw [hs.marks] at htag
    cases pieces with
    | nil => cases htag
    | cons piece left =>
        cases piece with
        | char c => cases htag
        | tag w => exact ⟨w, left, rfl⟩
  have hmarks : s.rest = .tag :: left.map mark := hs.marks
  rw [hmarks] at hend ⊢
  have htext : x.rest = w.text ++ (textOf left ++ z) := by
    rw [hs.text, textOf, List.flatMap_cons, List.append_assoc]
    rfl
  have hlength : textOf [.tag w] = w.text := List.append_nil _
  obtain ⟨parts, flag, htag, hhidden, hanswers⟩ := (hs.reads w List.mem_cons_self).opening (x := { x with found := [] })
    (Follows.isTagEnd_of_tagEnd hend z) htext rfl
  refine ⟨[.tag w], left, _, rfl, .branch .opening hanswers,
    ⟨rfl, rfl, ?_, ?_, fun w hw => hs.reads w (List.mem_cons_of_mem _ hw)⟩, ?_, [_], rfl, fun _ => ?_⟩
  · rw [allFaded, hs.found, faded, if_pos rfl, List.reverse_reverse, htag]
    rfl
  · intro b hb
    cases hb
  · rw [hlength]
  · rw [tagsFound, tagsFoundIn, if_pos rfl, List.reverse_reverse, htag]
    exact ⟨rfl, (List.append_nil _).trans hhidden⟩

/-- A pattern that may start with type parameters answers what the rest of it does behind these, or where there are
none. -/
theorem answers_of_withoutGeneric {y : Reached Kind} {q : Option (Reached Kind)}
    (hb : Outline.withoutGeneric a = some b) (hopt : Answers grammar (Pattern.opt (rule .typeParameters)) x (some y))
    (h : Answers grammar b y q) : Answers grammar a x q := by
  induction a generalizing b q with
  | seq c d ihc _ =>
      rw [Outline.withoutGeneric] at hb
      split at hb
      next hgeneric =>
        cases hb
        obtain rfl : c = Pattern.opt (rule .typeParameters) := by
          unfold Outline.isGeneric at hgeneric
          split at hgeneric
          · rfl
          · cases hgeneric
        exact .seq hopt h
      next =>
        obtain ⟨e, he, rfl⟩ := Option.map_eq_some_iff.mp hb
        obtain ⟨hnone, rfl⟩ | ⟨u, hu, hd⟩ := h.of_seq
        · exact .seq_none (ihc he hnone)
        · exact .seq (ihc he hu) hd
  | _ => cases hb

theorem exists_of_behindTag {answer : Option (Option Sight)} {behind : List Mark}
    (h : Outline.behindTag answer = some behind) : ∃ t, answer = some (some t) ∧ t.rest = .tag :: behind := by
  unfold Outline.behindTag at h
  split at h
  next t =>
    split at h
    next rest hrest =>
      cases h
      exact ⟨t, rfl, hrest⟩
    next => cases h
  next => cases h

theorem eq_of_fails {answer : Option (Option Sight)} (h : Outline.fails answer = true) : answer = some none := by
  unfold Outline.fails at h
  split at h
  · rfl
  · cases h

theorem append_cons_inj {blanks blanks' u v : List Char} {c d : Char} (hblanks : ∀ e ∈ blanks, isSpace e = true)
    (hblanks' : ∀ e ∈ blanks', isSpace e = true) (hc : isSpace c = false) (hd : isSpace d = false)
    (h : blanks ++ c :: u = blanks' ++ d :: v) : blanks = blanks' ∧ c = d ∧ u = v := by
  have hdrop := congrArg (List.dropWhile isSpace) h
  have htake := congrArg (List.takeWhile isSpace) h
  have hstop {e : Char} {v : List Char} (he : isSpace e = false) : ∀ f, (e :: v).head? = some f → isSpace f = false :=
    fun f hf => Option.some.inj hf ▸ he
  rw [Text.dropWhile_append_eq hblanks (hstop hc), Text.dropWhile_append_eq hblanks' (hstop hd)] at hdrop
  rw [Text.takeWhile_append_eq hblanks (hstop hc), Text.takeWhile_append_eq hblanks' (hstop hd)] at htake
  obtain ⟨hsame, hrest⟩ := List.cons.inj hdrop
  exact ⟨htake, hsame, hrest⟩

/-- Where a start tag stands, a pattern does not match that may start with type parameters, if what follows these does
not match: at the tag, or behind it if it opens. -/
theorem answers_none_of_withoutGeneric {behind : List Mark} (hs : Stands z s x pieces)
    (hb : Outline.withoutGeneric a = some b) (htrivia : Follows whole z trivia x pieces (some t))
    (ht : t.rest = .tag :: behind) (hend : Outline.tagEnd behind ≠ .unknown) (hhere : Answers grammar b x none)
    (hfurther : ∀ {further}, Outline.tagEnd behind = .opens further → ∀ {y left},
      Stands z { s with rest := further } y left → Answers grammar b y none) : Answers grammar a x none := by
  obtain ⟨taken, left, y, rfl, hy, hstands, -⟩ := htrivia
  obtain ⟨w, left, rfl⟩ : ∃ w left', left = .tag w :: left' := by
    have hmarks := hstands.marks.symm.trans ht
    match left, hmarks with
    | .tag w :: left, _ => exact ⟨w, left, rfl⟩
  obtain rfl : left.map mark = behind := (List.cons.inj (hstands.marks.symm.trans ht)).2
  have htext : y.rest = w.text ++ (textOf left ++ z) := by
    rw [hstands.text, textOf, List.flatMap_cons, List.append_assoc]
    rfl
  obtain ⟨hfound, hflag⟩ : y.found = x.found ∧ y.flag = x.flag := by
    obtain ⟨fuel, hfuel⟩ := hy
    exact Grammar.Leads.of_isStill x.found x.flag rfl fuel x y ⟨rfl, rfl⟩ hfuel
  have htypes := (hstands.reads w List.mem_cons_self).typeParameters (Follows.isTagEnd_of_tagEnd hend z) hy htext
  rcases htypes with hnone | ⟨blanks, rest, hblanks, htail, hsome⟩
  · exact answers_of_withoutGeneric hb (.right hnone .empty) hhere
  · -- Only a start tag that opens is read as type parameters.
    obtain ⟨blanks', hblanks', ⟨further, rfl, hopens⟩ | ⟨further, rfl, -⟩⟩ := Follows.exists_of_tagEnd hend
    · have hsame : blanks' ++ '>' :: (textOf further ++ z) = blanks ++ '>' :: rest := by
        rw [← htail, textOf_append, textOf_chars, List.append_assoc]
        rfl
      obtain ⟨rfl, -, rfl⟩ := append_cons_inj hblanks' hblanks (by decide) (by decide) hsame
      refine answers_of_withoutGeneric hb (.left hsome) (hfurther hopens ⟨rfl, rfl, ?_, ?_, ?_⟩)
      · exact hfound ▸ hs.found
      · exact hflag ▸ hs.flag
      · intro v hv
        exact hstands.reads v (List.mem_cons_of_mem _ (List.mem_append_right _ (List.mem_cons_of_mem _ hv)))
    · have hsame : blanks' ++ '/' :: ('>' :: (textOf further ++ z)) = blanks ++ '>' :: rest := by
        rw [← htail, textOf_append, textOf_chars, List.append_assoc]
        rfl
      exact absurd (append_cons_inj hblanks' hblanks (by decide) (by decide) hsame).2.1 (by decide)

/-- What a reading along an outline answers, the reading of every program of that outline answers. -/
theorem follows_of_look {fuel : Nat} (hz : whole = true → z = []) (ha : Known a)
    (h : Outline.look whole fuel a s = some r) (hs : Stands z s x pieces) : Follows whole z a x pieces r := by
  induction fuel generalizing a s x pieces r with
  | zero => cases h
  | succ fuel ih =>
      cases a with
      | empty =>
          cases h
          exact hs.follows_here .empty
      | char p => exact hs.follows_char hz h
      | run p =>
          obtain ⟨rest, hrest, rfl⟩ := Option.map_eq_some_iff.mp h
          exact hs.follows_run hz hrest
      | text literal =>
          obtain ⟨q, hq, rfl⟩ := Option.map_eq_some_iff.mp h
          exact hs.follows_text hz hq
      | seq a b =>
          obtain ⟨hknownA, hknownB⟩ := ha.seq
          rw [Outline.look] at h
          split at h
          next rest behind hgeneric =>
            obtain ⟨b', hb', hpair⟩ := Option.bind_eq_some_iff.mp hgeneric
            obtain ⟨_, hbehind, hpair⟩ := Option.map_eq_some_iff.mp hpair
            obtain ⟨rfl, rfl⟩ := Prod.mk.inj hpair
            have hknown := ha.withoutGeneric hb'
            obtain ⟨t, ht, htag⟩ := exists_of_behindTag hbehind
            have hnone {u : Sight} (hu : Outline.fails (Outline.look whole fuel b' u) = true) :
                Outline.look whole fuel b' u = some none := eq_of_fails hu
            have hgoes := answers_none_of_withoutGeneric hs hb' (ih .trivia ht hs) htag
            split at h
            next further hopens =>
              split at h
              next hfails =>
                cases h
                obtain ⟨hhere, hfurther⟩ := Bool.and_eq_true_iff.mp hfails
                refine hgoes (by rw [hopens]; exact nofun) (ih hknown (hnone hhere) hs) ?_
                intro further' hfurther' y left hy
                obtain rfl := Outline.TagEnd.opens.inj (hopens.symm.trans hfurther')
                exact ih hknown (hnone hfurther) hy
              next => cases h
            next hcloses =>
              split at h
              next hfails =>
                cases h
                refine hgoes (by rw [hcloses]; exact nofun) (ih hknown (hnone hfails) hs) ?_
                intro further hopens
                exact nomatch hcloses.symm.trans hopens
              next => cases h
            next => cases h
          next =>
            split at h
            next t ht => exact (ih hknownA ht hs).seq fun hy => ih hknownB h hy
            next answer hanswer =>
              cases r with
              | none => exact Answers.seq_none (ih hknownA h hs)
              | some u => exact absurd h (hanswer u)
      | alt a b =>
          obtain ⟨hknownA, hknownB⟩ := ha.alt
          rw [Outline.look] at h
          split at h
          next hnone => exact (ih hknownA hnone hs).right (ih hknownB h hs)
          next answer hanswer =>
            cases r with
            | none => exact absurd h hanswer
            | some t => exact (ih hknownA h hs).left
      | many a =>
          rw [Outline.look] at h
          split at h
          next t ht =>
            split at h
            next hsame =>
              cases h
              exact (ih ha.many ht hs).many hs (fun hfurther => absurd (beq_iff_eq.mp hsame) hfurther) fun _ => rfl
            next hfurther =>
              exact (ih ha.many ht hs).many hs (fun _ _ _ hy => ih ha h hy)
                fun hsame => absurd (beq_iff_eq.mpr hsame) hfurther
          next hnone =>
            cases h
            exact hs.follows_here (.many_none (ih ha.many hnone hs))
          next => cases h
      | «unless» a =>
          rw [Outline.look] at h
          split at h
          next t ht =>
            cases h
            obtain ⟨-, -, y, -, hy, -⟩ := ih ha.unless ht hs
            exact Answers.unless_none hy
          next hnone =>
            cases h
            exact hs.follows_here (.unless (ih ha.unless hnone hs))
          next => cases h
      | given p =>
          obtain ⟨q, hq, rfl⟩ := Option.map_eq_some_iff.mp h
          have hgiven : Answers grammar (.given p) x _ := .given p
          rw [hs.given_of_holds hz (ha.foreseen p List.mem_cons_self) hq] at hgiven
          cases q with
          | false => exact hgiven
          | true => exact hs.follows_here hgiven
      | flagged =>
          obtain ⟨q, hq, rfl⟩ := Option.map_eq_some_iff.mp h
          have hflagged : Answers grammar .flagged x _ := .flagged
          rw [hs.flag q hq] at hflagged
          cases q with
          | false => exact hflagged
          | true => exact hs.follows_here hflagged
      | flag mark =>
          cases h
          refine ⟨[], pieces, { x with flag := mark }, rfl, .flag mark, ⟨hs.marks, hs.text, hs.found, ?_, hs.reads⟩,
            .refl x mark⟩
          exact fun b hb => Option.some.inj hb
      | token kind a =>
          rw [Outline.look] at h
          split at h
          next t ht =>
            obtain ⟨text, htext, rfl⟩ := Option.map_eq_some_iff.mp h
            exact (ih ha.token ht hs).token hs htext
          next answer hanswer =>
            cases r with
            | none => exact Answers.token kind (ih ha.token h hs)
            | some t => exact absurd h (hanswer t)
      | branch kind a =>
          rw [Outline.look] at h
          split at h
          next htag =>
            obtain ⟨rfl, htag⟩ := htag
            obtain rfl := ha.opening
            split at h
            next => cases h
            next hend =>
              cases h
              exact follows_opening hs htag hend
          next =>
            have hinside : Stands z { s with found := [] } { x with found := [] } pieces :=
              ⟨hs.marks, hs.text, rfl, hs.flag, hs.reads⟩
            split at h
            next t ht =>
              split at h
              next => cases h
              next hnamed =>
                cases h
                refine (ih ha.branch ht hinside).branch hs fun hwhole hkind => ?_
                subst hwhole hkind
                simpa [Option.ne_none_iff_exists'] using hnamed
            next answer hanswer =>
              cases r with
              | none => exact Answers.branch kind (ih ha.branch h hinside)
              | some t => exact absurd h (hanswer t)
      | rule name =>
          have hname := ih (known_grammar name) h hs
          cases r with
          | none => exact Answers.rule hname
          | some t =>
              obtain ⟨taken, left, y, hpieces, hy, hrest⟩ := hname
              exact ⟨taken, left, y, hpieces, .rule hy, hrest⟩

end Sight

/-- How deep a rule goes before it takes the first character. -/
def deep : Rule → Nat
  | .program => 61
  | .statement => 57
  | .block => 9
  | .declaration => 24
  | .expressions => 36
  | .expression | .plainExpression => 34
  | .operand | .plainOperand => 32
  | .pattern => 13
  | .type => 29
  | .typeArguments => 10
  | .typeParameters => 10
  | .objectType => 11
  | .parameters => 9
  | .callSignature => 14
  | .classBody => 9
  | .arguments => 9
  | .template => 9
  | .decorator => 8
  | .propertyName => 14
  | .element => 7
  | .jsxExpression => 7

theorem founded_grammar : Founded grammar (· == .program) deep 60 where
  bound_pos := by decide
  stays_of_mayStay r := by cases r <;> decide +kernel
  depth_le r := by cases r <;> decide +kernel
  bounded r := by cases r <;> decide +kernel

/-- A program is read as it is in outline, and its start tags are found as they are written. -/
theorem exists_parse?_of_look {pieces : List Piece} {fuel : Nat} {t : Sight} (hreads : ∀ w, .tag w ∈ pieces → w.Reads)
    (h : Outline.look true fuel (rule .program) { rest := pieces.map mark } = some (some t)) (ht : t.rest = []) :
    ∃ trees, Grammar.parse? grammar .program (textOf pieces) = some trees ∧ allFaded trees = t.found.reverse ∧
      tagsFound trees = placed 0 pieces ∧ hiddenTags trees = [] := by
  have hs : Stands [] { rest := pieces.map mark } { rest := textOf pieces } pieces :=
    ⟨rfl, (List.append_nil _).symm, rfl, fun b hb => Option.some.inj hb, hreads⟩
  obtain ⟨taken, left, y, rfl, hy, hstands, -, found, hfound, htags⟩ :=
    follows_of_look (fun _ : true = true => rfl) (.rule .program) h hs
  obtain rfl : left = [] := List.map_eq_nil_iff.mp (hstands.marks.symm.trans ht)
  rw [List.append_nil] at hy hfound ⊢
  have hparts : y.found.reverse = found := by rw [hfound, List.reverse_reverse]
  refine ⟨found, hparts ▸ founded_grammar.parse?_eq (by decide) (by decide) hy hstands.text, ?_, htags rfl⟩
  rw [← hparts, allFaded_reverse, hstands.found]

end MarkupIds.Jsx
