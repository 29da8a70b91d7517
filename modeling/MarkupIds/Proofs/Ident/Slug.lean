import Mathlib.Data.String.Basic
import MarkupIds.Ident.Generator
import MarkupIds.Proofs.Ident.Ledger
import MarkupIds.Proofs.Text.Words

/-! Slugs go by what is kept of a text: white space around it has no part in them, and a text of which nothing is kept
has an empty slug. Beside what the options put in front and the name of the element, ids are made of what slugs keep;
behind its prefix an id has something, unless the element has nothing to tell and the bare prefix is still free. -/

namespace MarkupIds.Slug

open MarkupIds.Text (isBlank)

/-- No character is kept that has one of the code points from `first` to `last`. -/
def isGap (first last : Nat) : Bool :=
  (Text.alphanumericRanges.all fun r => last < r.first || r.last < first) && (last < '-'.toNat || '-'.toNat < first)

theorem isKept_of_isGap {first last : Nat} {c : Char} (h : isGap first last = true)
    (hc : first ≤ c.toNat ∧ c.toNat ≤ last) : isKept c = false := by
  obtain ⟨hranges, hhyphen⟩ := Bool.and_eq_true_iff.mp h
  rw [isKept, Bool.or_eq_false_iff, Text.isAlphanumeric, Text.inRanges, List.any_eq_false, beq_eq_false_iff_ne]
  constructor
  · intro r hr hin
    have hapart := List.all_eq_true.mp hranges r hr
    simp only [Text.CodeRange.contains, Bool.and_eq_true, Bool.or_eq_true, decide_eq_true_eq] at hin hapart
    omega
  · rintro rfl
    simp only [Bool.or_eq_true, decide_eq_true_eq] at hhyphen
    omega

theorem isKept_of_gaps (gaps : List (Nat × Nat)) {c : Char} (h : (gaps.all fun gap => isGap gap.1 gap.2) = true)
    (hc : ∃ gap ∈ gaps, gap.1 ≤ c.toNat ∧ c.toNat ≤ gap.2) : isKept c = false := by
  obtain ⟨gap, hgap, hc⟩ := hc
  exact isKept_of_isGap (List.all_eq_true.mp h gap hgap) hc

/-- White space is not kept. -/
theorem isKept_of_isBlank {c : Char} (h : isBlank c = true) : isKept c = false := by
  simp only [isBlank, Bool.or_eq_true, Bool.and_eq_true, decide_eq_true_eq, beq_iff_eq] at h
  refine isKept_of_gaps [(9, 13), (28, 32), (0x85, 0x85), (0xA0, 0xA0), (0x1680, 0x1680), (0x2000, 0x200A),
    (0x2028, 0x2029), (0x202F, 0x202F), (0x205F, 0x205F), (0x3000, 0x3000)] (by decide +kernel) ?_
  simp only [List.mem_cons, List.not_mem_nil, or_false, exists_eq_or_imp, exists_eq_left]
  omega

theorem cleaned_append (s t : List Char) : cleaned (s ++ t) = cleaned s ++ cleaned t := List.map_append

theorem isBlank_of_mem_cleaned {s : List Char} (h : ∀ c ∈ s, isBlank c = true) : ∀ c ∈ cleaned s, isBlank c = true := by
  intro c hc
  obtain ⟨d, hd, rfl⟩ := List.mem_map.mp hc
  rw [isKept_of_isBlank (h d hd)]
  rfl

/-- Trimming makes no difference to the words that are left. -/
theorem words_cleaned_trim (s : List Char) : Text.words (cleaned (Text.trim s)) = Text.words (cleaned s) := by
  obtain ⟨before, behind, hs, hbefore, hbehind⟩ := Text.exists_trim s
  have hwords := Text.words_of_blank_around (isBlank_of_mem_cleaned hbefore) (isBlank_of_mem_cleaned hbehind)
    (cleaned (Text.trim s))
  rw [← hwords, ← cleaned_append, ← cleaned_append, ← hs]

/-- Cleaning turns exactly what is not kept into white space. -/
theorem isBlank_cleaned (c : Char) : isBlank (if isKept c then c else ' ') = !isKept c := by
  cases hkept : isKept c with
  | false => rfl
  | true =>
      rw [if_pos rfl, Bool.not_true, Bool.eq_false_iff]
      intro hblank
      rw [isKept_of_isBlank hblank] at hkept
      cases hkept

theorem words_cleaned_eq_nil_iff {s : List Char} :
    Text.words (cleaned s) = [] ↔ ∀ c ∈ s, isKept c = false := by
  rw [Text.words_eq_nil_iff]
  simp only [cleaned, List.forall_mem_map, isBlank_cleaned, Bool.not_eq_true']

/-- Words leave something between and beside the hyphens. -/
theorem hyphenated_eq_nil_iff {words : List (List Char)} (h : ∀ w ∈ words, w ≠ []) : hyphenated words = [] ↔ words = [] := by
  cases words using hyphenated.induct with
  | case1 => simp [hyphenated]
  | case2 w => simpa [hyphenated] using h w List.mem_cons_self
  | case3 w rest hne => simp [hyphenated.eq_3 w rest hne]

/-- The slug of a text is empty exactly if no letter or digit and no hyphen is left of it in lower case. -/
theorem ofText_eq_nil_iff {s : List Char} : ofText s = [] ↔ ∀ c ∈ Text.lower s, isKept c = false := by
  rw [ofText, List.take_eq_nil_iff, or_iff_right (by decide), words_cleaned_trim,
    hyphenated_eq_nil_iff fun w => Text.ne_nil_of_mem_words, words_cleaned_eq_nil_iff]

end MarkupIds.Slug

namespace MarkupIds.Generator

open Slug (isKept)

theorem isKept_hyphen : isKept '-' = true := by rw [isKept, beq_self_eq_true, Bool.or_true]

theorem isKept_of_isDigit {c : Char} (h : c.isDigit = true) : isKept c = true := by
  have hall : ∀ n ∈ List.range' 48 10, isKept (Char.ofNat n) = true := by decide
  have hmem := hall c.toNat (by
    simp only [Char.isDigit, Bool.and_eq_true, decide_eq_true_eq] at h
    obtain ⟨hlow, hhigh⟩ := h
    rw [List.mem_range'_1]
    exact ⟨hlow, Nat.lt_succ_of_le hhigh⟩)
  rwa [Char.ofNat_toNat] at hmem

theorem isKept_of_mem_digits {n : Nat} {c : Char} (h : c ∈ (toString n).toList) : isKept c = true := by
  rw [Nat.toString_eq_repr, Nat.toList_repr] at h
  exact isKept_of_isDigit (Nat.isDigit_of_mem_toDigits (by decide) (by decide) h)

theorem isKept_of_mem_toString {n : Int} {c : Char} (h : c ∈ (toString n).toList) : isKept c = true := by
  cases n with
  | ofNat n => exact isKept_of_mem_digits h
  | negSucc n =>
      rw [show toString (Int.negSucc n) = "-" ++ toString (n + 1) from rfl, String.toList_append] at h
      obtain rfl | h := List.mem_cons.mp h
      · exact isKept_hyphen
      · exact isKept_of_mem_digits h

theorem isKept_of_mem_hex {text : String} {c : Char} (h : c ∈ Digest.hex text) : isKept c = true := by
  have hall : ∀ n < 16, isKept (Nat.digitChar n) = true := by decide
  obtain ⟨w, -, hw⟩ := List.mem_flatMap.mp h
  obtain ⟨shift, -, rfl⟩ := List.mem_map.mp hw
  exact hall _ (Nat.mod_lt _ (by decide))

theorem mem_hyphenated {words : List (List Char)} {c : Char} (h : c ∈ Slug.hyphenated words) :
    (∃ w ∈ words, c ∈ w) ∨ c = '-' := by
  induction words using Slug.hyphenated.induct with
  | case1 => cases h
  | case2 w => exact .inl ⟨w, List.mem_cons_self, h⟩
  | case3 w words hne ih =>
      rw [Slug.hyphenated.eq_3 w words hne] at h
      obtain h | h := List.mem_append.mp h
      · exact .inl ⟨w, List.mem_cons_self, h⟩
      obtain rfl | h := List.mem_cons.mp h
      · exact .inr rfl
      obtain ⟨v, hv, hc⟩ | hc := ih h
      · exact .inl ⟨v, List.mem_cons_of_mem _ hv, hc⟩
      · exact .inr hc

theorem isKept_of_mem_ofText {s : List Char} {c : Char} (h : c ∈ Slug.ofText s) : isKept c = true := by
  obtain ⟨w, hw, hc⟩ | rfl := mem_hyphenated (List.mem_of_mem_take h)
  · obtain ⟨hpiece, -⟩ := List.mem_filter.mp hw
    have hblank := Text.not_of_mem_splitWhere hpiece c hc
    obtain ⟨d, -, rfl⟩ := List.mem_map.mp (Text.mem_of_mem_splitWhere hpiece hc)
    split at hblank
    next hkept =>
      rw [if_pos hkept]
      exact hkept
    next => cases hblank
  · exact isKept_hyphen

/-- An id is made of what is put in front of it, the name of the element, and what slugs keep. -/
theorem mem_candidate {element : Descriptor} {o : Options} {c : Char} (h : c ∈ (candidate element o).toList) :
    c ∈ o.idPrefix.toList ∨ c ∈ element.name.toList ∨ isKept c = true := by
  have hash {name : String} {path : List Int} (h : c ∈ (hashCandidate name path o.idPrefix).toList) :
      c ∈ o.idPrefix.toList ∨ isKept c = true := by
    rw [hashCandidate, String.toList_append, String.toList_ofList] at h
    obtain h | h := List.mem_append.mp h
    · exact .inl h
    · exact .inr (isKept_of_mem_hex (List.mem_of_mem_take h))
  unfold candidate at h
  split at h
  next =>
    unfold slugCandidate at h
    split at h
    next => exact (hash h).imp_right .inr
    next =>
      rw [String.toList_append, String.toList_ofList] at h
      obtain h | h := List.mem_append.mp h
      · exact .inl h
      · exact .inr (.inr (isKept_of_mem_ofText h))
  next =>
    rw [pathCandidate, String.toList_append, String.toList_append, String.join_eq, String.toList_ofList, List.map_map] at h
    obtain h | h := List.mem_append.mp h
    · exact (List.mem_append.mp h).imp_right .inl
    obtain ⟨part, hpart, hc⟩ := List.mem_flatten.mp h
    obtain ⟨n, -, rfl⟩ := List.mem_map.mp hpart
    rw [Function.comp_apply, String.toList_append] at hc
    obtain rfl | hc := List.mem_cons.mp hc
    · exact .inr (.inr isKept_hyphen)
    · exact .inr (.inr (isKept_of_mem_toString hc))
  next => exact (hash h).imp_right .inr

theorem mem_firstFree {used : List String} {candidate : String} {c : Char}
    (h : c ∈ (firstFree used candidate).toList) : c ∈ candidate.toList ∨ isKept c = true := by
  obtain ⟨-, hid⟩ | ⟨-, k, -, -, hid⟩ := firstFree_spec used candidate
  · rw [hid] at h
    exact .inl h
  · rw [hid, suffixed, String.toList_append, String.toList_append] at h
    obtain h | h := List.mem_append.mp h
    · refine (List.mem_append.mp h).imp_right fun h => ?_
      obtain rfl := List.mem_singleton.mp h
      exact isKept_hyphen
    · exact .inr (isKept_of_mem_digits h)

/-- An element that has nothing to tell in its id: a text of which a slug keeps nothing, or neither a name nor a
path. -/
def IsBare (element : Descriptor) (o : Options) : Prop :=
  match o.strategy with
  | .slug => element.text.getD [] ≠ [] ∧ ∀ c ∈ Text.lower (element.text.getD []), Slug.isKept c = false
  | .path => element.name = "" ∧ element.path = []
  | .hash => False

/-- A digest always has something to tell. -/
theorem hashCandidate_ne (name : String) (path : List Int) (idPrefix : String) :
    hashCandidate name path idPrefix ≠ idPrefix := by
  intro h
  rw [hashCandidate, String.append_eq_left_iff, ← String.toList_eq_nil_iff, String.toList_ofList] at h
  have hlength := congrArg List.length h
  rw [List.length_take, Digest.length_hex] at hlength
  cases hlength

theorem slugCandidate_eq_iff {text : List Char} {idPrefix : String} : slugCandidate text idPrefix = idPrefix ↔
    text ≠ [] ∧ ∀ c ∈ Text.lower text, Slug.isKept c = false := by
  cases text with
  | nil =>
      rw [slugCandidate, List.isEmpty_nil, if_pos rfl]
      exact ⟨fun h => absurd h (hashCandidate_ne _ _ _), fun h => absurd rfl h.1⟩
  | cons c text =>
      rw [slugCandidate, List.isEmpty_cons, if_neg Bool.false_ne_true, String.append_eq_left_iff,
        ← String.toList_eq_nil_iff, String.toList_ofList, Slug.ofText_eq_nil_iff,
        and_iff_right (List.cons_ne_nil c text)]

theorem pathCandidate_eq_iff {name : String} {path : List Int} {idPrefix : String} :
    pathCandidate name path idPrefix = idPrefix ↔ name = "" ∧ path = [] := by
  rw [pathCandidate, String.append_assoc, String.append_eq_left_iff, String.append_eq_empty_iff]
  cases path with
  | nil => simp
  | cons n path => simp [← String.toList_eq_nil_iff, String.join_eq]

theorem candidate_eq_prefix_iff {element : Descriptor} {o : Options} :
    candidate element o = o.idPrefix ↔ IsBare element o := by
  unfold candidate IsBare
  cases o.strategy with
  | slug => exact slugCandidate_eq_iff
  | path => exact pathCandidate_eq_iff
  | hash => exact ⟨fun h => absurd h (hashCandidate_ne _ _ _), False.elim⟩

theorem length_lt_iff_ne {s t : String} (h : s.toList <+: t.toList) : s.length < t.length ↔ t ≠ s := by
  rw [← String.length_toList, ← String.length_toList, ne_eq, ← String.toList_inj]
  constructor
  · intro hlt heq
    rw [heq] at hlt
    exact Nat.lt_irrefl _ hlt
  · intro hne
    refine Nat.lt_of_le_of_ne h.length_le fun heq => hne ?_
    exact (h.eq_of_length heq).symm

/-- A number behind a candidate makes it longer. -/
theorem length_lt_suffixed (candidate : String) (k : Nat) : candidate.length < (suffixed candidate k).length := by
  rw [suffixed, String.length_append, String.length_append]
  have hhyphen : "-".length = 1 := rfl
  omega

/-- Every id starts with the prefix, and it is longer than the prefix unless the element has nothing to tell and
the bare prefix has not been handed out yet. -/
theorem generate_beyond_prefix (g : Generator) (element : Descriptor) (o : Options) :
    let id := (g.generate element o).1
    o.idPrefix.toList <+: id.toList ∧
      (o.idPrefix.length < id.length ↔ ¬(IsBare element o ∧ o.idPrefix ∉ g.used)) := by
  intro id
  have hcandidate := prefixed_candidate element o
  refine ⟨prefixed_firstFree g.used hcandidate, ?_⟩
  rw [← candidate_eq_prefix_iff]
  obtain ⟨hfree, hid⟩ | ⟨htaken, k, -, -, hid⟩ := firstFree_spec g.used (candidate element o)
  · rw [show id = candidate element o from hid, length_lt_iff_ne hcandidate]
    constructor
    · rintro hne ⟨heq, -⟩
      exact hne heq
    · intro h heq
      exact h ⟨heq, heq ▸ hfree⟩
  · rw [show id = suffixed (candidate element o) k from hid]
    constructor
    · rintro - ⟨heq, hunused⟩
      exact hunused (heq ▸ htaken)
    · intro _
      have hle := hcandidate.length_le
      rw [String.length_toList, String.length_toList] at hle
      exact hle.trans_lt (length_lt_suffixed _ _)

/-- A text of signs alone makes a slug of nothing, where an element without any text gets a digest. -/
theorem generate_bare_prefix :
    let signs : Descriptor := { name := "p", path := [0], text := some "!!!".toList }
    let silent : Descriptor := { name := "p", path := [0], text := some [] }
    (({} : Generator).generate signs { strategy := .slug }).1 = "el-" ∧
      (({} : Generator).generate signs { strategy := .slug, idPrefix := "" }).1 = "" ∧
      (({} : Generator).generate silent { strategy := .slug }).1 = "el-46638cd1" := by
  decide +kernel

end MarkupIds.Generator
