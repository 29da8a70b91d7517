import Mathlib.Data.List.Sort
import MarkupIds.Proofs.Splice
import MarkupIds.Proofs.Text.Utf8
import MarkupIds.Jsx.Assign

/-! Edits of a text that is held as bytes. Their offsets count bytes, and where they are those of characters, the edits do
to the bytes what they do to the text, ordered by their ranges or by their starts alone: no character is cut apart. -/

namespace MarkupIds

namespace Text

/-- The offset in bytes of an offset in characters. -/
def byteOffset (source : List Char) (i : Nat) : Nat := (encode (source.take i)).length

theorem encode_append (a b : List Char) : encode (a ++ b) = encode a ++ encode b := List.flatMap_append

theorem encode_eq_nil {s : List Char} (h : encode s = []) : s = [] := by
  cases s with
  | nil => rfl
  | cons c s =>
      have hbytes := String.length_utf8EncodeChar c
      have hpos := c.utf8Size_pos
      rw [encode, List.flatMap_cons, List.append_eq_nil_iff] at h
      rw [h.1] at hbytes
      simp at hbytes
      omega

variable {source : List Char} {i j : Nat}

theorem byteOffset_add (source : List Char) (i k : Nat) :
    byteOffset source (i + k) = byteOffset source i + (encode ((source.drop i).take k)).length := by
  rw [byteOffset, List.take_add, encode_append, List.length_append]
  rfl

theorem byteOffset_mono (h : i ≤ j) : byteOffset source i ≤ byteOffset source j := by
  obtain ⟨k, rfl⟩ := Nat.exists_eq_add_of_le h
  rw [byteOffset_add]
  omega

theorem byteOffset_lt (h : i < j) (hj : j ≤ source.length) : byteOffset source i < byteOffset source j := by
  obtain ⟨k, rfl⟩ := Nat.exists_eq_add_of_le h.le
  have hpiece : (source.drop i).take k ≠ [] := by
    intro hnil
    have hlength := congrArg List.length hnil
    rw [List.length_take, List.length_drop, List.length_nil] at hlength
    omega
  have hpos := List.length_pos_iff.mpr fun hnil => hpiece (encode_eq_nil hnil)
  rw [byteOffset_add]
  omega

theorem byteOffset_lt_iff (hj : j ≤ source.length) :
    byteOffset source i < byteOffset source j ↔ i < j := by
  constructor
  · intro h
    by_contra hle
    have hmono : byteOffset source j ≤ byteOffset source i := byteOffset_mono (Nat.le_of_not_lt hle)
    omega
  · intro h
    exact byteOffset_lt h hj

theorem drop_encode (source : List Char) (i : Nat) :
    (encode source).drop (byteOffset source i) = encode (source.drop i) := by
  have hsplit : encode source = encode (source.take i) ++ encode (source.drop i) := by
    rw [← encode_append, List.take_append_drop]
  rw [hsplit, byteOffset, List.drop_left]

theorem take_encode_drop (source : List Char) (i k : Nat) :
    (encode (source.drop i)).take (byteOffset source (i + k) - byteOffset source i) =
      encode ((source.drop i).take k) := by
  have hsplit : encode (source.drop i) = encode ((source.drop i).take k) ++ encode ((source.drop i).drop k) := by
    rw [← encode_append, List.take_append_drop]
  rw [byteOffset_add, Nat.add_sub_cancel_left, hsplit, List.take_left]

end Text

/-- An edit of a text that is held as bytes. -/
structure ByteEdit where
  start : Nat
  stop : Nat
  replacement : List UInt8
deriving DecidableEq, Repr

namespace ByteEdit

/-- Order of edits: by start, then by stop. -/
def Le (a b : ByteEdit) : Prop := a.start < b.start ∨ a.start = b.start ∧ a.stop ≤ b.stop

instance : DecidableRel Le := fun a b =>
  inferInstanceAs (Decidable (a.start < b.start ∨ a.start = b.start ∧ a.stop ≤ b.stop))

/-- The edits made one after another; `rest` are the bytes from offset `cursor` on. The error is the start of an edit
that begins before its predecessor ends. -/
def applyFrom (cursor : Nat) (rest : List UInt8) : List ByteEdit → Except Nat (List UInt8)
  | [] => .ok rest
  | e :: edits =>
    if e.start < cursor then .error e.start
    else
      match applyFrom e.stop (rest.drop (e.stop - cursor)) edits with
      | .ok tail => .ok (rest.take (e.start - cursor) ++ e.replacement ++ tail)
      | .error start => .error start

/-- The bytes with every range replaced, or the start of the first edit that overlaps another. Edits of one range keep
their order. -/
def apply (source : List UInt8) (edits : List ByteEdit) : Except Nat (List UInt8) :=
  applyFrom 0 source (edits.insertionSort Le)

instance : SequenceEdit ByteEdit UInt8 := ⟨start, stop, replacement⟩

@[simp] theorem start_eq (e : ByteEdit) : SequenceEdit.start e = e.start := rfl

@[simp] theorem stop_eq (e : ByteEdit) : SequenceEdit.stop e = e.stop := rfl

@[simp] theorem replacement_eq (e : ByteEdit) : SequenceEdit.replacement e = e.replacement := rfl

/-- The edits of bytes are made as those of any sequence. -/
theorem applyFrom_eq (cursor : Nat) (rest : List UInt8) (edits : List ByteEdit) :
    applyFrom cursor rest edits = SequenceEdit.makeFrom cursor rest edits := by
  induction edits generalizing cursor rest with
  | nil => rfl
  | cons e edits ih =>
      rw [applyFrom, SequenceEdit.makeFrom, ih, start_eq, stop_eq, replacement_eq]
      cases SequenceEdit.makeFrom e.stop (rest.drop (e.stop - cursor)) edits <;> rfl

end ByteEdit

namespace Edit

open Text (encode byteOffset)

/-- The edit as one of the bytes of a text. -/
def encoded (source : List Char) (e : Edit) : ByteEdit :=
  ⟨byteOffset source e.start, byteOffset source e.stop, encode e.replacement⟩

/-- What comes of edits of a text, in bytes: the new text, or the start that an edit reaches over. -/
def inBytes (source : List Char) : Except Nat (List Char) → Except Nat (List UInt8)
  | .ok out => .ok (encode out)
  | .error s => .error (byteOffset source s)

theorem putInto_eq (e : Edit) (edits : List Edit) :
    putInto e edits = edits.orderedInsert (fun a b => le a b = true) e := by
  induction edits with
  | nil => rfl
  | cons other edits ih => rw [putInto, List.orderedInsert, ih]

theorem inOrder_eq (edits : List Edit) : inOrder edits = edits.insertionSort fun a b => le a b = true := by
  induction edits with
  | nil => rfl
  | cons e edits ih =>
      rw [List.insertionSort_cons, ← ih, ← putInto_eq]
      rfl

section Encoded

variable {source : List Char} {edits : List Edit}

theorem le_encoded {a b : Edit} (ha : a.start ≤ source.length ∧ a.stop ≤ source.length)
    (hb : b.start ≤ source.length ∧ b.stop ≤ source.length) :
    le a b = true ↔ ByteEdit.Le (a.encoded source) (b.encoded source) := by
  have hstart := Text.byteOffset_lt_iff (i := a.start) hb.1
  have hback := Text.byteOffset_lt_iff (i := b.start) ha.1
  have hstop := Text.byteOffset_lt_iff (i := b.stop) ha.2
  simp only [le, ByteEdit.Le, encoded, Bool.or_eq_true, Bool.and_eq_true, decide_eq_true_eq, beq_iff_eq]
  omega

theorem map_inOrder (source : List Char) (hrange : ∀ e ∈ edits, e.start ≤ source.length ∧ e.stop ≤ source.length) :
    (inOrder edits).map (encoded source) = (edits.map (encoded source)).insertionSort ByteEdit.Le := by
  rw [inOrder_eq]
  exact List.map_insertionSort _ _ _ _ fun a ha b hb => le_encoded (hrange a ha) (hrange b hb)

theorem applyFrom_encode (cursor : Nat) (hcursor : cursor ≤ source.length)
    (hrange : ∀ e ∈ edits, e.start ≤ e.stop ∧ e.stop ≤ source.length) :
    ByteEdit.applyFrom (byteOffset source cursor) (encode (source.drop cursor)) (edits.map (encoded source)) =
      inBytes source (spliceFrom cursor (source.drop cursor) edits) := by
  induction edits generalizing cursor with
  | nil => rfl
  | cons e edits ih =>
      obtain ⟨⟨hle, hstop⟩, hlater⟩ := List.forall_mem_cons.mp hrange
      have hstart : (e.encoded source).start = byteOffset source e.start := rfl
      have hend : (e.encoded source).stop = byteOffset source e.stop := rfl
      rw [List.map_cons, ByteEdit.applyFrom, hstart, hend, spliceFrom]
      by_cases hback : e.start < cursor
      · rw [if_pos hback, if_pos (Text.byteOffset_lt hback hcursor)]
        rfl
      · obtain ⟨k, hk⟩ := Nat.exists_eq_add_of_le (Nat.le_of_not_lt hback)
        have hdrop : (encode (source.drop cursor)).drop (byteOffset source e.stop - byteOffset source cursor) =
            encode (source.drop e.stop) := by
          rw [← Text.drop_encode, List.drop_drop, Nat.add_sub_cancel' (Text.byteOffset_mono (by omega)),
            Text.drop_encode]
        have htake : (encode (source.drop cursor)).take (byteOffset source e.start - byteOffset source cursor) =
            encode ((source.drop cursor).take (e.start - cursor)) := by
          rw [hk, Text.take_encode_drop, Nat.add_sub_cancel_left]
        rw [if_neg hback, if_neg (Nat.not_lt.mpr (Text.byteOffset_mono (Nat.le_of_not_lt hback))), hdrop, htake,
          ih e.stop hstop hlater, List.drop_drop, Nat.add_sub_cancel' (by omega)]
        cases spliceFrom e.stop (source.drop e.stop) edits with
        | error s => rfl
        | ok tail =>
            rw [inBytes, inBytes, Text.encode_append, Text.encode_append]
            rfl

/-- Edits of a text and of its bytes come to the same. -/
theorem apply_encode_eq (hrange : ∀ e ∈ edits, e.start ≤ e.stop ∧ e.stop ≤ source.length) :
    ByteEdit.apply (encode source) (edits.map (encoded source)) = inBytes source (splice source edits) := by
  have hperm := inOrder_perm edits
  have hordered := map_inOrder source fun e he =>
    ⟨Nat.le_trans (hrange e he).1 (hrange e he).2, (hrange e he).2⟩
  rw [ByteEdit.apply, ← hordered]
  exact applyFrom_encode 0 (Nat.zero_le _) fun e he => hrange e (hperm.mem_iff.mp he)

/-- Edits of a text can be made on its bytes. -/
theorem apply_encode {out : List Char} (hrange : ∀ e ∈ edits, e.start ≤ e.stop ∧ e.stop ≤ source.length)
    (h : splice source edits = .ok out) :
    ByteEdit.apply (encode source) (edits.map (encoded source)) = .ok (encode out) := by
  rw [apply_encode_eq hrange, h]
  rfl

end Encoded

end Edit

open SequenceEdit (Precedes InRange Distinct Makes)

theorem Text.byteCount_eq (s : List Char) : Jsx.byteCount s = (encode s).length := by
  have hfold (n : Nat) : s.foldl (fun count c => count + c.utf8Size) n = n + (encode s).length := by
    induction s generalizing n with
    | nil => rfl
    | cons c s ih =>
        rw [List.foldl_cons, ih, encode, encode, List.flatMap_cons, List.length_append, String.length_utf8EncodeChar]
        omega
  exact (hfold 0).trans (Nat.zero_add _)

namespace ByteEdit

theorem pairwise_insertionSort (edits : List ByteEdit) :
    (edits.insertionSort Le).Pairwise fun a b => ¬ Precedes b a := by
  have htotal : Std.Total Le := ⟨fun a b => by unfold Le; omega⟩
  have htrans : IsTrans ByteEdit Le := ⟨fun a b c hab hbc => by unfold Le at *; omega⟩
  refine (List.pairwise_insertionSort Le edits).imp fun {a b} hle => ?_
  simp only [Le, Precedes, start_eq, stop_eq] at *
  omega

theorem makes_apply {bytes : List UInt8} {edits : List ByteEdit} (hrange : InRange bytes edits)
    (hdistinct : Distinct edits) : Makes apply bytes edits :=
  SequenceEdit.makes_of_order (fun edits => List.perm_insertionSort Le edits) pairwise_insertionSort
    (fun _ => applyFrom_eq 0 bytes _) hrange hdistinct

end ByteEdit

namespace Edit

/-- The text with every range replaced, where edits are ordered by their starts alone and those of one start keep the
order in which they are given. -/
def spliceByStart (source : List Char) (edits : List Edit) : Except Nat (List Char) :=
  spliceFrom 0 source (edits.mergeSort fun a b => a.start ≤ b.start)

variable {source : List Char} {edits : List Edit}

theorem not_precedes_of_le {a b : Edit} (h : le a b = true) : ¬ Precedes b a := by
  simp only [le, Precedes, start_eq, stop_eq, Bool.or_eq_true, Bool.and_eq_true, decide_eq_true_eq, beq_iff_eq] at *
  omega

theorem pairwise_start_inOrder (edits : List Edit) : (inOrder edits).Pairwise fun a b => a.start ≤ b.start := by
  refine (pairwise_inOrder edits).imp fun {a b} hle => ?_
  simp only [le, Bool.or_eq_true, Bool.and_eq_true, decide_eq_true_eq, beq_iff_eq] at hle
  omega

theorem pairwise_start_mergeSort (edits : List Edit) :
    (edits.mergeSort fun a b => a.start ≤ b.start).Pairwise fun a b => a.start ≤ b.start := by
  refine List.Pairwise.imp of_decide_eq_true (List.pairwise_mergeSort ?_ ?_ edits)
  · intro a b c hab hbc
    rw [decide_eq_true_eq] at *
    exact Nat.le_trans hab hbc
  · intro a b
    rw [Bool.or_eq_true, decide_eq_true_eq, decide_eq_true_eq]
    exact Nat.le_total _ _

/-- Where no range is empty, the order of the starts is enough. -/
theorem spliceByStart_eq_splice (source : List Char) (hfull : ∀ e ∈ edits, e.start < e.stop) :
    spliceByStart source edits = splice source edits := by
  have hperm := List.mergeSort_perm edits fun a b => a.start ≤ b.start
  rw [spliceByStart, splice, spliceFrom_eq, spliceFrom_eq]
  exact SequenceEdit.makeFrom_eq_of_perm (hperm.trans (inOrder_perm edits).symm)
    (fun e he => hfull e (hperm.mem_iff.mp he)) (pairwise_start_mergeSort edits) (pairwise_start_inOrder edits)

theorem makes_splice (hrange : InRange source edits) (hdistinct : Distinct edits) : Makes splice source edits :=
  SequenceEdit.makes_of_order inOrder_perm (fun edits => (pairwise_inOrder edits).imp not_precedes_of_le)
    (fun _ => spliceFrom_eq 0 source _) hrange hdistinct

theorem makes_spliceByStart (hrange : InRange source edits) (hdistinct : Distinct edits)
    (hfull : ∀ e ∈ edits, e.start < e.stop) : Makes spliceByStart source edits :=
  (makes_splice hrange hdistinct).congr fun _ h =>
    spliceByStart_eq_splice source fun e he => hfull e (h.mem_iff.mp he)

/-- Edits of different ranges in a text, or in bytes, are refused exactly if one of them starts before the end of
another that precedes it; else the result is the source with each range replaced, its length is that of the source with
what each edit adds, and the order in which the edits are given has no part in it. The same holds where they are ordered
by their starts alone, if no range is empty. Edits of a text come to the same on its bytes. -/
theorem splice_makes (source : List Char) (edits : List Edit) (bytes : List UInt8) (byteEdits : List ByteEdit) :
    (InRange source edits → Distinct edits → Makes splice source edits ∧
      ((∀ e ∈ edits, e.start < e.stop) →
        Makes spliceByStart source edits ∧ spliceByStart source edits = splice source edits)) ∧
    (InRange bytes byteEdits → Distinct byteEdits → Makes ByteEdit.apply bytes byteEdits) ∧
    (InRange source edits →
      (∀ out, splice source edits = .ok out →
        ByteEdit.apply (Text.encode source) (edits.map (encoded source)) = .ok (Text.encode out)) ∧
      ∀ s, splice source edits = .error s →
        ByteEdit.apply (Text.encode source) (edits.map (encoded source)) = .error (Jsx.byteCount (source.take s))) := by
  refine ⟨fun hrange hdistinct => ⟨makes_splice hrange hdistinct, fun hfull => ⟨?_, ?_⟩⟩, ByteEdit.makes_apply,
    fun hrange => ⟨?_, ?_⟩⟩
  · exact makes_spliceByStart hrange hdistinct hfull
  · exact spliceByStart_eq_splice source hfull
  · exact fun out h => apply_encode hrange h
  · intro s h
    rw [apply_encode_eq hrange, h, Text.byteCount_eq]
    rfl

/-- An insertion may touch a range at either end but not stand within it, be it between the bytes of one character. -/
theorem splice_makes_touching :
    let source := "abcdef".toList
    let edits : List Edit := [⟨3, 3, ['+']⟩, ⟨1, 3, ['x']⟩, ⟨1, 1, ['-']⟩]
    let full : List Edit := [⟨4, 6, []⟩, ⟨1, 4, ['é']⟩]
    let bytes := Text.encode ['é']
    splice source edits = .ok "a-x+def".toList ∧
    spliceByStart source full = .ok "aé".toList ∧
    ByteEdit.apply (Text.encode source) (full.map (encoded source)) = .ok (Text.encode "aé".toList) ∧
    ∃ s, ByteEdit.apply bytes [⟨0, 2, [0x41]⟩, ⟨1, 1, [0x42]⟩] = .error s := by
  intro source edits full bytes
  obtain ⟨htext, hbytes, -⟩ := splice_makes source edits bytes [⟨0, 2, [0x41]⟩, ⟨1, 1, [0x42]⟩]
  obtain ⟨hfull, -, hencoded⟩ := splice_makes source full [] []
  obtain ⟨hstart, heq⟩ := (hfull (by decide) (by decide)).2 (by decide)
  have hreplaced : spliceByStart source full = .ok "aé".toList := hstart.eq_replaced (by decide)
  refine ⟨(htext (by decide) (by decide)).1.eq_replaced (by decide), hreplaced, ?_, ?_⟩
  · exact (hencoded (by decide)).1 _ (heq.symm.trans hreplaced)
  · exact (hbytes (by decide) (by decide)).refused_iff.mpr (by decide)

end Edit

end MarkupIds
