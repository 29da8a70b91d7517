import Mathlib.Data.List.Basic
import MarkupIds.Text.Utf8

/-! The bytes of a text are read as that text again. -/

namespace MarkupIds.Text

section Bytes

theorem isContinuation_iff (b : UInt8) : isContinuation b = true ↔ 128 ≤ b.toNat ∧ b.toNat < 192 := by
  simp [isContinuation, UInt8.le_iff_toNat_le, UInt8.lt_iff_toNat_lt]

theorem mayFollow_of_between {a b : UInt8} (h : isContinuation b = true) (hlow : a.toNat = 224 → 160 ≤ b.toNat)
    (hpair : a.toNat = 237 → b.toNat < 160) (hlong : a.toNat = 240 → 144 ≤ b.toNat)
    (hlast : a.toNat = 244 → b.toNat < 144) : mayFollow a b = true := by
  rw [mayFollow, h, Bool.true_and]
  split
  next heq => simpa [UInt8.le_iff_toNat_le] using hlow (congrArg UInt8.toNat (beq_iff_eq.mp heq))
  next =>
    split
    next heq => simpa [UInt8.lt_iff_toNat_lt] using hpair (congrArg UInt8.toNat (beq_iff_eq.mp heq))
    next =>
      split
      next heq => simpa [UInt8.le_iff_toNat_le] using hlong (congrArg UInt8.toNat (beq_iff_eq.mp heq))
      next =>
        split
        next heq => simpa [UInt8.lt_iff_toNat_lt] using hlast (congrArg UInt8.toNat (beq_iff_eq.mp heq))
        next => rfl

/-- The size of a character, told by the range of its first byte. -/
theorem sizeFrom?_eq (a : UInt8) : sizeFrom? a =
    if a.toNat < 128 then some 1
    else if 194 ≤ a.toNat ∧ a.toNat < 224 then some 2
    else if 224 ≤ a.toNat ∧ a.toNat < 240 then some 3
    else if 240 ≤ a.toNat ∧ a.toNat < 245 then some 4
    else none := by
  simp [sizeFrom?, UInt8.le_iff_toNat_le, UInt8.lt_iff_toNat_lt]

variable {n : Nat}

theorem toNat_ofNat_add {k : Nat} (h : n + k < 256) : (UInt8.ofNat (n + k)).toNat = n + k :=
  UInt8.toNat_ofNat_of_lt' h

theorem isContinuation_ofNat (h : n < 64) : isContinuation (UInt8.ofNat (n + 128)) = true := by
  rw [isContinuation_iff, toNat_ofNat_add (by omega)]
  omega

theorem addBits_ofNat (k : Nat) (h : n < 64) : addBits k (UInt8.ofNat (n + 128)) = k * 64 + n := by
  rw [addBits, toNat_ofNat_add (by omega)]
  omega

end Bytes

/-- A first byte and those behind it are read as a character, whatever follows them. -/
def Reads (n : Nat) (bytes : List UInt8) : Prop :=
  ∃ a bs, bytes = a :: bs ∧ sizeFrom? a = some (bs.length + 1) ∧
    ∀ rest, charNumber a (bs.length + 1) (bs ++ rest) = .ok n

section Reads

variable {n : Nat}

theorem reads_one (h : n < 128) : Reads n [UInt8.ofNat n] := by
  have ha : (UInt8.ofNat n).toNat = n := UInt8.toNat_ofNat_of_lt' (Nat.lt_trans h (by decide))
  refine ⟨_, [], rfl, ?_, ?_⟩
  · rw [sizeFrom?_eq, ha, if_pos h]
    rfl
  · intro rest
    exact congrArg Except.ok ha

theorem reads_two (hlow : 128 ≤ n) (h : n < 2048) :
    Reads n [UInt8.ofNat (n / 64 % 32 + 192), UInt8.ofNat (n % 64 + 128)] := by
  have ha := toNat_ofNat_add (n := n / 64 % 32) (k := 192) (by omega)
  have hb := isContinuation_ofNat (n := n % 64) (by omega)
  refine ⟨_, [_], rfl, ?_, ?_⟩
  · rw [sizeFrom?_eq, ha, if_neg (by omega), if_pos (by omega)]
    rfl
  · intro rest
    have hfollow : mayFollow (UInt8.ofNat (n / 64 % 32 + 192)) (UInt8.ofNat (n % 64 + 128)) = true :=
      mayFollow_of_between hb (by omega) (by omega) (by omega) (by omega)
    simp only [List.length_singleton, Nat.reduceAdd, List.singleton_append, charNumber, if_pos hfollow,
      addBits_ofNat _ (Nat.mod_lt n (by omega : 64 > 0)), ha]
    exact congrArg Except.ok (by omega)

theorem reads_three (hlow : 2048 ≤ n) (h : n < 65536) (hpair : n < 55296 ∨ 57343 < n) :
    Reads n [UInt8.ofNat (n / 4096 % 16 + 224), UInt8.ofNat (n / 64 % 64 + 128), UInt8.ofNat (n % 64 + 128)] := by
  have ha := toNat_ofNat_add (n := n / 4096 % 16) (k := 224) (by omega)
  have hb := toNat_ofNat_add (n := n / 64 % 64) (k := 128) (by omega)
  have hbc := isContinuation_ofNat (n := n / 64 % 64) (by omega)
  have hcc := isContinuation_ofNat (n := n % 64) (by omega)
  refine ⟨_, [_, _], rfl, ?_, ?_⟩
  · rw [sizeFrom?_eq, ha, if_neg (by omega), if_neg (by omega), if_pos (by omega)]
    rfl
  · intro rest
    have hfollow : mayFollow (UInt8.ofNat (n / 4096 % 16 + 224)) (UInt8.ofNat (n / 64 % 64 + 128)) = true :=
      mayFollow_of_between hbc (by omega) (by omega) (by omega) (by omega)
    simp only [List.length_cons, List.length_nil, Nat.reduceAdd, List.cons_append, charNumber, hfollow, hcc,
      Bool.not_true, Bool.false_eq_true, if_false, addBits_ofNat _ (Nat.mod_lt _ (by omega : 64 > 0)), ha]
    exact congrArg Except.ok (by omega)

theorem reads_four (hlow : 65536 ≤ n) (h : n < 1114112) :
    Reads n [UInt8.ofNat (n / 262144 % 8 + 240), UInt8.ofNat (n / 4096 % 64 + 128), UInt8.ofNat (n / 64 % 64 + 128),
      UInt8.ofNat (n % 64 + 128)] := by
  have ha := toNat_ofNat_add (n := n / 262144 % 8) (k := 240) (by omega)
  have hb := toNat_ofNat_add (n := n / 4096 % 64) (k := 128) (by omega)
  have hbc := isContinuation_ofNat (n := n / 4096 % 64) (by omega)
  have hcc := isContinuation_ofNat (n := n / 64 % 64) (by omega)
  have hdc := isContinuation_ofNat (n := n % 64) (by omega)
  refine ⟨_, [_, _, _], rfl, ?_, ?_⟩
  · rw [sizeFrom?_eq, ha, if_neg (by omega), if_neg (by omega), if_neg (by omega), if_pos (by omega)]
    rfl
  · intro rest
    have hfollow : mayFollow (UInt8.ofNat (n / 262144 % 8 + 240)) (UInt8.ofNat (n / 4096 % 64 + 128)) = true :=
      mayFollow_of_between hbc (by omega) (by omega) (by omega) (by omega)
    simp only [List.length_cons, List.length_nil, Nat.reduceAdd, List.cons_append, charNumber, hfollow, hcc, hdc,
      Bool.not_true, Bool.false_eq_true, if_false, addBits_ofNat _ (Nat.mod_lt _ (by omega : 64 > 0)), ha]
    exact congrArg Except.ok (by omega)

end Reads

theorem reads_utf8EncodeChar (c : Char) : Reads c.toNat (String.utf8EncodeChar c) := by
  have hvalid : c.toNat < 55296 ∨ 57343 < c.toNat ∧ c.toNat < 1114112 := c.valid
  unfold String.utf8EncodeChar
  rw [Char.toNat_val]
  dsimp only
  split
  next h => exact reads_one (by omega)
  next =>
    split
    next h => exact reads_two (by omega) (by omega)
    next =>
      split
      next h => exact reads_three (by omega) (by omega) (by omega)
      next => exact reads_four (by omega) (by omega)

/-- Bytes that belong to a character that has been read are passed over. -/
theorem decodeFrom_skip (offset : Nat) (bytes rest : List UInt8) :
    decodeFrom offset bytes.length (bytes ++ rest) = decodeFrom (offset + bytes.length) 0 rest := by
  induction bytes generalizing offset with
  | nil => rfl
  | cons b bytes ih =>
      have hnext := ih (offset + 1)
      rw [List.length_cons, List.cons_append, decodeFrom, hnext, Nat.add_assoc, Nat.add_comm 1]

/-- A text comes back from its bytes. -/
theorem decode_encode (text : List Char) : decode (encode text) = .ok text := by
  suffices h : ∀ offset, decodeFrom offset 0 (encode text) = .ok text from h 0
  induction text with
  | nil =>
      intro offset
      rfl
  | cons c text ih =>
      intro offset
      obtain ⟨a, bs, hbytes, hsize, hnumber⟩ := reads_utf8EncodeChar c
      have hsplit : encode (c :: text) = a :: (bs ++ encode text) := by
        rw [encode, List.flatMap_cons, hbytes, List.cons_append, encode]
      rw [hsplit, decodeFrom]
      simp only [hsize, hnumber, Nat.add_sub_cancel, decodeFrom_skip, ih, Char.ofNat_toNat]

end MarkupIds.Text
