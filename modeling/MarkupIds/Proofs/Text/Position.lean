import Mathlib.Data.List.GetD
import Mathlib.Data.List.Induction
import MarkupIds.Text.Position

/-! Places and offsets: the table of line starts leads from the place of an offset back to it, and the place is the same
whether it is reached character by character, in segments, or told from the line feeds before it. -/

namespace MarkupIds.Text

/-- The table of line starts knows the place that is reached from `p` by `a`, where `starts` are the
lines up to `p` and `k` is its offset. -/
theorem offsetIn_advance {starts : List Nat} {p : Position} {k : Nat} (hline : starts.length = p.line)
    (hpos : 1 ≤ p.line) (hk : offsetIn starts p = k) (a b : List Char) :
    offsetIn (starts ++ lineStartsFrom k (a ++ b)) (p.advance a) = k + a.length := by
  induction a generalizing starts p k with
  | nil =>
      have hlt : p.line - 1 < starts.length := by omega
      rw [List.nil_append, ← hk]
      change (starts ++ _).getD (p.line - 1) 0 + p.column = _
      rw [List.getD_append _ _ _ _ hlt]
      rfl
  | cons c a ih =>
      have hadvance : p.advance (c :: a) = (p.step c).advance a := rfl
      rw [hadvance, List.cons_append, lineStartsFrom, List.length_cons]
      by_cases hc : (c == '\n') = true
      · have hstep : p.step c = ⟨p.line + 1, 0⟩ := if_pos hc
        have hnext : offsetIn (starts ++ [k + 1]) (p.step c) = k + 1 := by
          rw [hstep]
          simp [offsetIn, ← hline]
        have hlines : (starts ++ [k + 1]).length = (p.step c).line := by
          rw [hstep]
          simp [hline]
        have hmore := ih hlines (by rw [hstep]; exact Nat.succ_pos _) hnext
        rw [if_pos hc, List.append_cons, hmore]
        omega
      · have hstep : p.step c = ⟨p.line, p.column + 1⟩ := if_neg hc
        have hnext : offsetIn starts (p.step c) = k + 1 := by
          rw [hstep, ← hk]
          rfl
        have hmore := ih (by rw [hstep]; exact hline) (by rw [hstep]; exact hpos) hnext
        rw [if_neg hc, hmore]
        omega

theorem offsetIn_positionAt (a b : List Char) :
    offsetIn (lineStarts (a ++ b)) (Position.start.advance a) = a.length := by
  have hstart : offsetIn [0] Position.start = 0 := rfl
  have h := offsetIn_advance rfl (Nat.le_refl _) hstart a b
  rwa [Nat.zero_add] at h

/-- The place behind a text: its line feeds make up the lines, and what follows the last of them the column. -/
theorem start_advance (s : List Char) :
    Position.start.advance s = ⟨s.count '\n' + 1, (s.reverse.takeWhile (· != '\n')).length⟩ := by
  induction s using List.reverseRecOn with
  | nil => rfl
  | append_singleton s c ih =>
      have hstep : Position.advance ⟨s.count '\n' + 1, (s.reverse.takeWhile (· != '\n')).length⟩ [c] =
          Position.step ⟨s.count '\n' + 1, (s.reverse.takeWhile (· != '\n')).length⟩ c := rfl
      rw [Position.advance_append, ih, hstep, Position.step, List.reverse_append, List.count_append]
      by_cases hc : c = '\n'
      · subst hc
        rfl
      · have hcount : List.count '\n' [c] = 0 := List.count_eq_zero.mpr (by simpa using Ne.symm hc)
        rw [if_neg (by simpa using hc), hcount, List.reverse_singleton, List.singleton_append,
          List.takeWhile_cons_of_pos (by simpa using hc)]
        rfl

/-- The offsets of the line feeds in a text. -/
def lineFeeds (s : List Char) : List Nat := (List.range s.length).filter fun i => s[i]? == some '\n'

theorem lineFeeds_append (s : List Char) (c : Char) :
    lineFeeds (s ++ [c]) = lineFeeds s ++ if c = '\n' then [s.length] else [] := by
  have hbefore : ((List.range s.length).filter fun i => (s ++ [c])[i]? == some '\n') = lineFeeds s := by
    refine List.filter_congr fun i hi => ?_
    rw [List.getElem?_append_left (List.mem_range.mp hi)]
  rw [lineFeeds, List.length_append, List.length_singleton, List.range_succ, List.filter_append, hbefore]
  refine congrArg (lineFeeds s ++ ·) ?_
  by_cases hc : c = '\n'
  · rw [if_pos hc, List.filter_cons_of_pos (by simpa using hc)]
    rfl
  · rw [if_neg hc, List.filter_cons_of_neg (by simpa using hc)]
    rfl

theorem length_lineFeeds (s : List Char) : (lineFeeds s).length = s.count '\n' := by
  induction s using List.reverseRecOn with
  | nil => rfl
  | append_singleton s c ih =>
      rw [lineFeeds_append, List.length_append, ih, List.count_append]
      by_cases hc : c = '\n'
      · subst hc
        rfl
      · have hnone : List.count '\n' [c] = 0 := List.count_eq_zero.mpr (by simpa using Ne.symm hc)
        rw [if_neg hc, hnone]
        rfl

theorem lineStartsFrom_append (offset : Nat) (s t : List Char) :
    lineStartsFrom offset (s ++ t) = lineStartsFrom offset s ++ lineStartsFrom (offset + s.length) t := by
  induction s generalizing offset with
  | nil => rfl
  | cons c s ih =>
      have hlength : offset + 1 + s.length = offset + (c :: s).length := by
        rw [List.length_cons]
        omega
      rw [List.cons_append, lineStartsFrom, lineStartsFrom, ih, hlength]
      split <;> rfl

/-- Lines start with the text and behind each line feed. -/
theorem lineStarts_eq (s : List Char) : lineStarts s = 0 :: (lineFeeds s).map (· + 1) := by
  refine congrArg (List.cons 0) ?_
  induction s using List.reverseRecOn with
  | nil => rfl
  | append_singleton s c ih =>
      rw [lineStartsFrom_append, ih, lineFeeds_append, List.map_append, Nat.zero_add]
      by_cases hc : c = '\n'
      · subst hc
        rfl
      · rw [if_neg hc, lineStartsFrom, if_neg (by simpa using hc)]
        rfl

/-- The offset behind the last line feed of a text, or its start if it has none. -/
def behindLastFeed (s : List Char) : Nat := ((lineFeeds s).getLast?.map (· + 1)).getD 0

theorem behindLastFeed_append (s : List Char) (c : Char) :
    behindLastFeed (s ++ [c]) = if c = '\n' then s.length + 1 else behindLastFeed s := by
  rw [behindLastFeed, lineFeeds_append]
  split
  next => rw [List.getLast?_concat]; rfl
  next => rw [List.append_nil, behindLastFeed]

theorem behindLastFeed_le (s : List Char) : behindLastFeed s ≤ s.length := by
  induction s using List.reverseRecOn with
  | nil => exact Nat.le_refl 0
  | append_singleton s c ih =>
      rw [behindLastFeed_append, List.length_append, List.length_singleton]
      split <;> omega

namespace Position

/-- The place behind a segment that is passed in one step: its line feeds are counted, and columns start anew behind the
last of them. -/
def pass (p : Position) (segment : List Char) : Position :=
  if segment.count '\n' = 0 then ⟨p.line, p.column + segment.length⟩
  else ⟨p.line + segment.count '\n', segment.length - behindLastFeed segment⟩

theorem line_pass (p : Position) (s : List Char) : (p.pass s).line = p.line + s.count '\n' := by
  rw [pass]
  split
  next hnone => rw [hnone, Nat.add_zero]
  next => rfl

theorem pass_append (p : Position) (s : List Char) (c : Char) : p.pass (s ++ [c]) = (p.pass s).step c := by
  by_cases hc : c = '\n'
  · subst hc
    have hstep : (p.pass s).step '\n' = ⟨(p.pass s).line + 1, 0⟩ := rfl
    have hcount : (s ++ ['\n']).count '\n' = s.count '\n' + 1 := List.count_append
    rw [hstep, line_pass, pass, hcount, if_neg (Nat.succ_ne_zero _), behindLastFeed_append, if_pos rfl,
      List.length_append, List.length_singleton, Nat.sub_self, Nat.add_assoc]
  · have hstep : (p.pass s).step c = ⟨(p.pass s).line, (p.pass s).column + 1⟩ := if_neg (by simpa using hc)
    have hfeed : List.count '\n' [c] = 0 := List.count_eq_zero.mpr (by simpa using Ne.symm hc)
    rw [hstep, pass, pass, List.count_append, hfeed, Nat.add_zero, behindLastFeed_append, if_neg hc, List.length_append,
      List.length_singleton]
    by_cases hnone : s.count '\n' = 0
    · rw [if_pos hnone, if_pos hnone, Nat.add_assoc]
    · rw [if_neg hnone, if_neg hnone, Nat.sub_add_comm (behindLastFeed_le s)]

/-- A segment may be passed character by character. -/
theorem pass_eq_advance (p : Position) (s : List Char) : p.pass s = p.advance s := by
  induction s using List.reverseRecOn with
  | nil => rfl
  | append_singleton s c ih =>
      rw [pass_append, ih, advance_append]
      rfl

/-- Where a text is cut into segments does not matter for the place behind it. -/
theorem foldl_pass (p : Position) (segments : List (List Char)) :
    segments.foldl pass p = p.advance segments.flatten := by
  induction segments generalizing p with
  | nil => rfl
  | cons segment segments ih => rw [List.foldl_cons, ih, pass_eq_advance, List.flatten_cons, advance_append]

end Position

/-- The line and the column of an offset, both counted from one, as the line feeds before it tell them. -/
def lineColumn (s : List Char) (n : Nat) : Nat × Nat :=
  ((s.take n).count '\n' + 1, n - behindLastFeed (s.take n) + 1)

theorem lineColumn_eq {s : List Char} {n : Nat} (hn : n ≤ s.length) :
    lineColumn s n = ((positionAt s n).line, (positionAt s n).column + 1) := by
  have hlength : (s.take n).length = n := List.length_take_of_le hn
  rw [positionAt, ← Position.pass_eq_advance, Position.line_pass, lineColumn, Position.pass, hlength, Nat.add_comm]
  split
  next hnone =>
    have hfeeds : lineFeeds (s.take n) = [] := List.eq_nil_of_length_eq_zero ((length_lineFeeds _).trans hnone)
    rw [behindLastFeed, hfeeds, Nat.add_comm Position.start.column]
    rfl
  next => rfl

/-- The place that is reached in segments of any kind up to an offset leads back to it: its line is in the table of line
starts, and the column counts from there. It is the place that the line feeds before the offset tell. -/
theorem place_of_segments {text : List Char} {n : Nat} {segments : List (List Char)} (hn : n ≤ text.length)
    (hsegments : segments.flatten = text.take n) :
    let p := segments.foldl Position.pass Position.start
    lineStarts text = 0 :: (lineFeeds text).map (· + 1) ∧
    (∃ _ : p.line - 1 < (lineStarts text).length, (lineStarts text)[p.line - 1] + p.column = n) ∧
    offsetIn (lineStarts text) p = n ∧
    positionAt text n = p ∧
    lineColumn text n = (p.line, p.column + 1) := by
  intro p
  have hp : positionAt text n = p := by
    rw [positionAt, ← hsegments, ← Position.foldl_pass]
  have hcolumn := lineColumn_eq hn
  rw [hp] at hcolumn
  have hline : p.line - 1 < (lineStarts text).length := by
    have hfeeds : (text.take n).count '\n' + 1 = p.line := congrArg Prod.fst hcolumn
    have hle := (List.take_sublist n text).count_le '\n'
    rw [lineStarts_eq, List.length_cons, List.length_map, length_lineFeeds, ← hfeeds]
    omega
  have hoffset : offsetIn (lineStarts text) p = n := by
    have hback := offsetIn_positionAt (text.take n) (text.drop n)
    rw [List.take_append_drop, List.length_take_of_le hn] at hback
    rw [← hp]
    exact hback
  refine ⟨lineStarts_eq text, ⟨hline, ?_⟩, hoffset, hp, hcolumn⟩
  rw [← List.getD_eq_getElem (lineStarts text) 0 hline]
  exact hoffset

/-- A line ends between two segments, with a carriage return before its line feed; a carriage return alone and a line
separator end none. -/
theorem place_of_segments_feeds :
    let text := "a\r\nb\rc\u2028\n\nd".toList
    let segments := [['a', '\r'], [], ['\n', 'b', '\r'], ['c', '\u2028'], ['\n', '\n', 'd']]
    segments.foldl Position.pass Position.start = ⟨4, 1⟩ ∧ lineStarts text = [0, 3, 8, 9] ∧
      offsetIn (lineStarts text) ⟨4, 1⟩ = 10 ∧ lineColumn text 10 = (4, 2) := by
  intro text segments
  have hn : 10 ≤ text.length := by decide
  have hsegments : segments.flatten = text.take 10 := by decide
  obtain ⟨hstarts, -, hoffset, -, hcolumn⟩ := place_of_segments hn hsegments
  exact ⟨rfl, hstarts, hoffset, hcolumn⟩

end MarkupIds.Text
