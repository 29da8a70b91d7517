import MarkupIds.Proofs.Ident.Slug
import MarkupIds.Proofs.Text.Lower

/-! The normal form of slugs. A slug is made of letters, digits and hyphens in lower case, it is its own slug, and
what stands between its words in the text makes no difference. -/

namespace MarkupIds.Slug

open MarkupIds.Text (isBlank IsLow lowerChar SameWords)

/-- The slug of a text that is already in lower case. -/
def ofLower (t : List Char) : List Char := (hyphenated (Text.words (cleaned (Text.trim t)))).take maxLength

theorem ofText_eq (s : List Char) : ofText s = ofLower (Text.lower s) := rfl

theorem ofLower_eq (t : List Char) : ofLower t = (hyphenated (Text.words (cleaned t))).take maxLength := by
  rw [ofLower, words_cleaned_trim]

section Kept

theorem mem_of_mem_cleaned {t : List Char} {c : Char} (h : c ∈ cleaned t) (hc : isBlank c = false) : c ∈ t := by
  obtain ⟨d, hd, rfl⟩ := List.mem_map.mp h
  split at hc
  next hkept =>
    rw [if_pos hkept]
    exact hd
  next => cases hc

theorem mem_of_mem_ofLower {t : List Char} {c : Char} (h : c ∈ ofLower t) : c ∈ t ∨ c = '-' := by
  rw [ofLower_eq] at h
  obtain ⟨w, hw, hc⟩ | rfl := Generator.mem_hyphenated (List.mem_of_mem_take h)
  · obtain ⟨hpiece, -⟩ := List.mem_filter.mp hw
    exact .inl (mem_of_mem_cleaned (Text.mem_of_mem_splitWhere hpiece hc) (Text.not_of_mem_splitWhere hpiece c hc))
  · exact .inr rfl

/-- A slug is in lower case. -/
theorem isLow_of_mem_ofText {s : List Char} {c : Char} (h : c ∈ ofText s) : IsLow c := by
  obtain h | rfl := mem_of_mem_ofLower h
  · exact Text.isLow_of_mem_lowerFrom h
  · unfold IsLow
    decide

/-- What is kept is one word. -/
theorem words_of_kept {s : List Char} (hne : s ≠ []) (h : ∀ c ∈ s, isKept c = true) : Text.words s = [s] := by
  have hblank : ∀ c ∈ s, isBlank c = false := fun c hc => by
    rw [Bool.eq_false_iff]
    intro hblank
    have hkept := h c hc
    rw [isKept_of_isBlank hblank] at hkept
    cases hkept
  rw [Text.words, Text.splitWhere_of_forall hblank, List.filter_singleton, List.isEmpty_eq_false_iff.mpr hne]
  rfl

/-- A short word in lower case is its own slug. -/
theorem ofText_eq_self {s : List Char} (hne : s ≠ []) (hlow : ∀ c ∈ s, IsLow c) (hkept : ∀ c ∈ s, isKept c = true)
    (hlength : s.length ≤ maxLength) : ofText s = s := by
  have hclean : cleaned s = s := by
    conv_rhs => rw [← List.map_id' s]
    exact List.map_congr_left fun c hc => if_pos (hkept c hc)
  rw [ofText_eq, Text.lower_eq_self_iff.mpr hlow, ofLower_eq, hclean, words_of_kept hne hkept]
  exact List.take_of_length_le hlength

end Kept

section Gaps

/-- What is not kept has no part in the words around it, however wide it is. -/
theorem words_cleaned_gap {r : List Char} (hne : r ≠ []) (hr : ∀ c ∈ r, isKept c = false) (a b : List Char) :
    Text.words (cleaned (a ++ (r ++ b))) = Text.words (cleaned a ++ ' ' :: cleaned b) := by
  have hblank : ∀ c ∈ cleaned r, isBlank c = true := by
    intro c hc
    obtain ⟨d, hd, rfl⟩ := List.mem_map.mp hc
    rw [isBlank_cleaned, hr d hd]
    rfl
  have hne' : cleaned r ≠ [] := fun hnil => hne (List.map_eq_nil_iff.mp hnil)
  rw [cleaned_append, cleaned_append]
  exact ((Text.sameWords_blank_append hne' hblank (cleaned b)).append (cleaned a)).words

theorem ofLower_gap {r r' : List Char} (hne : r ≠ []) (hne' : r' ≠ []) (hr : ∀ c ∈ r, isKept c = false)
    (hr' : ∀ c ∈ r', isKept c = false) (a b : List Char) : ofLower (a ++ (r' ++ b)) = ofLower (a ++ (r ++ b)) := by
  rw [ofLower_eq, ofLower_eq, words_cleaned_gap hne hr, words_cleaned_gap hne' hr']

/-- The characters of the range are kept, or else what they become is not kept either. -/
def isEven (s : Text.CaseShift) : Bool :=
  (Text.alphanumericRanges.any fun r => Nat.ble r.first s.range.first && Nat.ble s.range.last r.last && Nat.beq r.step 1) ||
    isGap s.first s.last ||
    (List.range (s.range.last - s.range.first + 1)).all fun k =>
      k % s.range.step != 0 || isKept (Char.ofNat (s.range.first + k))

theorem shifts_even : Text.caseShifts.all isEven = true := by decide +kernel

/-- What is moved and not kept is moved to what is not kept. -/
theorem isKept_moved {s : Text.CaseShift} {c : Char} (hs : s.isSound = true) (heven : isEven s = true)
    (hn : s.range.contains c.toNat = true) (hc : isKept c = false) :
    isKept (Char.ofNat (c.toNat + s.shift).toNat) = false := by
  simp only [isEven, Bool.or_eq_true] at heven
  have hbounds := hn
  simp only [Text.CodeRange.contains, Bool.and_eq_true, decide_eq_true_eq, beq_iff_eq] at hbounds
  obtain ⟨⟨hfirst, hlast⟩, hstep⟩ := hbounds
  obtain (hletters | hgap) | hmembers := heven
  · obtain ⟨r, hr, hin⟩ := List.any_eq_true.mp hletters
    simp only [Bool.and_eq_true, Nat.ble_eq, Nat.beq_eq] at hin
    have hletter : Text.isAlphanumeric c = true := by
      refine List.any_eq_true.mpr ⟨r, hr, ?_⟩
      simp only [Text.CodeRange.contains, hin.2, Nat.mod_one, Bool.and_eq_true, decide_eq_true_eq, beq_iff_eq,
        and_true]
      omega
    rw [isKept, hletter] at hc
    cases hc
  · refine isKept_of_isGap hgap ?_
    rw [Text.CaseShift.toNat_moved hs hn]
    exact Text.CaseShift.moved_bounds hn
  · have hmember := List.all_eq_true.mp hmembers (c.toNat - s.range.first) (List.mem_range.mpr (by omega))
    rw [hstep, Nat.add_sub_cancel' hfirst, Char.ofNat_toNat, hc] at hmember
    cases hmember

/-- Lower case makes no letter, digit or hyphen of anything else. -/
theorem isKept_of_mem_lowerChar {c d : Char} (hc : isKept c = false) (h : d ∈ lowerChar c) : isKept d = false := by
  unfold lowerChar at h
  split at h
  next hdotted =>
    have hkept : isKept (Char.ofNat 0x130) = true := by decide
    rw [← beq_iff_eq.mp hdotted, Char.ofNat_toNat, hc] at hkept
    cases hkept
  next =>
    obtain rfl := List.mem_singleton.mp h
    unfold Text.lowerSingle
    split
    next s hs =>
      have hmem := List.mem_of_find?_eq_some hs
      have hn : s.range.contains c.toNat = true :=
        List.find?_some (p := fun s : Text.CaseShift => s.range.contains c.toNat) hs
      have hsound := List.all_eq_true.mp Text.shifts_sound s hmem
      simp only [Bool.and_eq_true] at hsound
      exact isKept_moved hsound.1.1 (List.all_eq_true.mp shifts_even s hmem) hn hc
    next => exact hc

/-- What is not kept is not kept in lower case either. -/
theorem lower_gap {a r b : List Char} (ha : ∀ c ∈ a, IsLow c) (hb : ∀ c ∈ b, IsLow c) (hne : r ≠ [])
    (hr : ∀ c ∈ r, isKept c = false) :
    ∃ r', Text.lower (a ++ (r ++ b)) = a ++ (r' ++ b) ∧ r' ≠ [] ∧ ∀ c ∈ r', isKept c = false := by
  have hsigma : isKept 'Σ' = true := by decide
  have hnot : 'Σ' ∉ a ++ (r ++ b) := by
    simp only [List.mem_append, not_or]
    refine ⟨fun hmem => (ha _ hmem).1 rfl, fun hmem => ?_, fun hmem => (hb _ hmem).1 rfl⟩
    rw [hr _ hmem] at hsigma
    cases hsigma
  refine ⟨r.flatMap lowerChar, ?_, ?_, fun d hd => ?_⟩
  · rw [Text.lower, Text.lowerFrom_eq_flatMap hnot, List.flatMap_append, List.flatMap_append, Text.flatMap_lowerChar ha,
      Text.flatMap_lowerChar hb]
  · cases r with
    | nil => exact absurd rfl hne
    | cons c r =>
        rw [List.flatMap_cons, lowerChar]
        split <;> exact List.cons_ne_nil _ _
  · obtain ⟨c, hc, hd⟩ := List.mem_flatMap.mp hd
    exact isKept_of_mem_lowerChar (hr c hc) hd

end Gaps

end MarkupIds.Slug

namespace MarkupIds.Generator

open MarkupIds.Slug (ofText ofLower)

theorem answer_slug {text : List Char} (h : text ≠ []) (idPrefix : String) :
    ((Call.slug text idPrefix).answer {}).1 = idPrefix ++ String.ofList (ofText text) := by
  rw [Call.answer_eq]
  change firstFree [] (slugCandidate text idPrefix) = _
  rw [slugCandidate, List.isEmpty_eq_false_iff.mpr h]
  rfl

/-- A new generator makes of a text the prefix and a slug of letters, digits and hyphens in lower case, which is its
own slug; and whatever parts the words of the text in lower case may be replaced by anything else that parts them. -/
theorem answer_slug_normal {text : List Char} (h : text ≠ []) (idPrefix : String) :
    let id (t : List Char) : String := ((Call.slug t idPrefix).answer {}).1
    let s := ofText text
    id text = idPrefix ++ String.ofList s ∧ s.length ≤ 50 ∧
      (∀ c ∈ s, (Text.isAlphanumeric c = true ∨ c = '-') ∧ Text.lower [c] = [c]) ∧
      (s ≠ [] → id s = idPrefix ++ String.ofList s) ∧
      ∀ a r r' b, Text.lower text = a ++ (r ++ b) → r ≠ [] → r' ≠ [] →
        (∀ c ∈ r ++ r', Text.isAlphanumeric c = false ∧ c ≠ '-') →
        ofLower (a ++ (r' ++ b)) = s ∧ id (a ++ (r' ++ b)) = id text := by
  intro id s
  have hkept : ∀ c ∈ s, Slug.isKept c = true := fun c hc => isKept_of_mem_ofText hc
  have hlow : ∀ c ∈ s, Text.IsLow c := fun c hc => Slug.isLow_of_mem_ofText hc
  refine ⟨answer_slug h idPrefix, Slug.length_ofText_le text, fun c hc => ⟨?_, ?_⟩, fun hne => ?_, ?_⟩
  · simpa [Slug.isKept] using hkept c hc
  · exact Text.lower_eq_self_iff.mpr (List.forall_mem_singleton.mpr (hlow c hc))
  · rw [show id s = _ from answer_slug hne idPrefix,
      Slug.ofText_eq_self hne hlow hkept (Slug.length_ofText_le text)]
  · intro a r r' b hlower hr hr' hgap
    have hapart : ∀ c ∈ r ++ r', Slug.isKept c = false := fun c hc => by simpa [Slug.isKept] using hgap c hc
    obtain ⟨hrgap, hrgap'⟩ := List.forall_mem_append.mp hapart
    have hall : ∀ c ∈ a ++ (r ++ b), Text.IsLow c := fun c hc => Text.isLow_of_mem_lowerFrom (hlower ▸ hc)
    obtain ⟨ha, hrest⟩ := List.forall_mem_append.mp hall
    obtain ⟨-, hb⟩ := List.forall_mem_append.mp hrest
    have hsame {u : List Char} (hu : u ≠ []) (hugap : ∀ c ∈ u, Slug.isKept c = false) : ofLower (a ++ (u ++ b)) = s := by
      rw [Slug.ofLower_gap hr hu hrgap hugap, ← hlower]
      rfl
    refine ⟨hsame hr' hrgap', ?_⟩
    obtain ⟨u, hu, hune, hugap⟩ := Slug.lower_gap ha hb hr' hrgap'
    have hslug : ofText (a ++ (r' ++ b)) = s := by
      rw [Slug.ofText_eq, hu, hsame hune hugap]
    rw [show id (a ++ (r' ++ b)) = _ from answer_slug (by simp [hr']) idPrefix, hslug]
    exact (answer_slug h idPrefix).symm

/-- A text with a final sigma, a dotted capital I that becomes two characters, and signs around a hyphen. -/
theorem answer_slug_normal_signs :
    let id (t : String) : String := ((Call.slug t.toList "el-").answer {}).1
    "ΟΔΟΣ & İ -x!".toList ≠ [] ∧ id "ΟΔΟΣ & İ -x!" = "el-οδος-i--x" ∧ id "οδος-i--x" = "el-οδος-i--x" ∧
      id "οδος\t(Ⓐ)i̇ -x!" = "el-οδος-i--x" := by
  intro id
  have hne : "ΟΔΟΣ & İ -x!".toList ≠ [] := by decide
  have hslug : Slug.ofText "ΟΔΟΣ & İ -x!".toList = "οδος-i--x".toList := by decide +kernel
  obtain ⟨hid, -, -, hagain, hgaps⟩ := answer_slug_normal hne "el-"
  have hgap : ((" & ".toList ++ "\t(Ⓐ)".toList).all fun c => !Text.isAlphanumeric c && c != '-') = true := by
    decide +kernel
  have hsigns := hgaps "οδος".toList " & ".toList "\t(Ⓐ)".toList "i̇ -x!".toList (by decide +kernel)
    (by decide) (by decide) (by simpa using List.all_eq_true.mp hgap)
  rw [hslug] at hid hagain
  exact ⟨hne, hid, hagain (by decide), hsigns.2.trans hid⟩

end MarkupIds.Generator
