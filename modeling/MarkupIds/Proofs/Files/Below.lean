import Mathlib.Data.List.Lex
import Mathlib.Data.List.Nodup
import Mathlib.Data.String.Basic
import MarkupIds.Proofs.Files.Parts
import MarkupIds.Proofs.Files.Way

/-! The source files below a directory: each of them is found exactly once, whatever the names of the directories
on the way, and they come in order of their suffixes and then of their paths. -/

namespace MarkupIds

namespace Path

/-- The order in which paths are compared is the order of lists of words. -/
theorem partsLe_iff {a b : List String} : partsLe a b = true ↔ a = b ∨ a < b := by
  induction a generalizing b with
  | nil => cases b <;> simp [partsLe]
  | cons x a ih =>
      cases b with
      | nil => simp [partsLe]
      | cons y b =>
          rw [partsLe, List.cons_lt_cons_iff, List.cons.injEq]
          by_cases hxy : x = y
          · rw [if_pos (beq_iff_eq.mpr hxy), ih]
            simp [hxy]
          · simp [hxy]

theorem pairwise_mergeSort_partsLe (ways : List (List String)) :
    (ways.mergeSort partsLe).Pairwise fun a b => a = b ∨ a < b := by
  have hsorted : (ways.mergeSort partsLe).Pairwise fun a b => partsLe a b = true :=
    List.pairwise_mergeSort (fun a b c hab hbc => ?_) (fun a b => ?_) ways
  · simpa only [partsLe_iff] using hsorted
  · rw [partsLe_iff] at hab hbc ⊢
    obtain rfl | hab := hab
    · exact hbc
    · obtain rfl | hbc := hbc
      · exact .inr hab
      · exact .inr (hab.trans hbc)
  · rw [Bool.or_eq_true, partsLe_iff, partsLe_iff]
    obtain h | h | h := lt_trichotomy a b
    · exact .inl (.inr h)
    · exact .inl (.inl h)
    · exact .inr (.inr h)

end Path

section Suffixes

open FileTree (sourceSuffixes)

/-- The name ends with the suffix. -/
def EndsWith (name suffix : String) : Prop := suffix.toList <:+ name.toList

/-- The position of the suffix of a name among the suffixes of source files. -/
def suffixRank (name : String) : Nat := sourceSuffixes.findIdx fun suffix => suffix.toList.isSuffixOf name.toList

/-- No name ends with two of the suffixes. -/
theorem eq_of_endsWith {name s s' : String} (hs : s ∈ sourceSuffixes) (hs' : s' ∈ sourceSuffixes)
    (h : EndsWith name s) (h' : EndsWith name s') : s = s' := by
  have hapart : ∀ s ∈ sourceSuffixes, ∀ s' ∈ sourceSuffixes, s.toList.isSuffixOf s'.toList = true → s = s' := by
    decide +kernel
  obtain hsuffix | hsuffix := List.suffix_or_suffix_of_suffix h h'
  · exact hapart s hs s' hs' (List.isSuffixOf_iff_suffix.mpr hsuffix)
  · exact (hapart s' hs' s hs (List.isSuffixOf_iff_suffix.mpr hsuffix)).symm

theorem suffixRank_eq {name s : String} (hs : s ∈ sourceSuffixes) (h : EndsWith name s) :
    suffixRank name = sourceSuffixes.idxOf s := by
  have hlt := List.idxOf_lt_length_iff.mpr hs
  rw [suffixRank, List.findIdx_eq hlt]
  refine ⟨?_, fun j hj => ?_⟩
  · rw [List.getElem_idxOf hlt]
    exact List.isSuffixOf_iff_suffix.mpr h
  · rw [Bool.eq_false_iff, ne_eq, List.isSuffixOf_iff_suffix]
    intro hsuffix
    have heq := eq_of_endsWith (List.getElem_mem (hj.trans hlt)) hs hsuffix h
    have hne := List.not_of_lt_findIdx hj
    rw [heq, beq_self_eq_true] at hne
    cases hne

end Suffixes

namespace FileTree

variable {t : FileTree} {l : Location} {suffix : String}

theorem waysBelow_eq (t : FileTree) (l : Location) (suffix : String) :
    t.waysBelow l suffix =
      waysTo (fun way => suffix.toList.isSuffixOf (way.getLast?.getD "").toList) l (t.files.map Prod.fst) := by
  rw [waysTo, List.filterMap_map]
  rfl

theorem mem_waysBelow {way : List String} : way ∈ t.waysBelow l suffix ↔
    t.isFileAt (l ++ way) = true ∧ way ≠ [] ∧ EndsWith (way.getLast?.getD "") suffix := by
  rw [waysBelow_eq, mem_waysTo, ← isFileAt_iff_mem, List.isSuffixOf_iff_suffix, EndsWith]

theorem Listed.nodup_waysBelow (h : t.Listed) (l : Location) (suffix : String) : (t.waysBelow l suffix).Nodup :=
  waysBelow_eq t l suffix ▸ nodup_waysTo h.files

/-- The ways to the files below a place come in order, each once. -/
theorem Listed.pairwise_filesBelow (h : t.Listed) (l : Location) (suffix : String) :
    (t.filesBelow l suffix).Pairwise (· < ·) := by
  have hnodup : (t.filesBelow l suffix).Nodup := (List.mergeSort_perm _ _).nodup_iff.mpr (h.nodup_waysBelow l suffix)
  refine (hnodup.and (Path.pairwise_mergeSort_partsLe (t.waysBelow l suffix))).imp ?_
  rintro a b ⟨hne, rfl | hlt⟩
  · exact absurd rfl hne
  · exact hlt

theorem mem_filesBelow {way : List String} : way ∈ t.filesBelow l suffix ↔
    t.isFileAt (l ++ way) = true ∧ way ≠ [] ∧ EndsWith (way.getLast?.getD "") suffix := by
  rw [filesBelow_eq, List.mem_mergeSort, mem_waysBelow]

/-- A file at some depth below a place whose name ends with one of the suffixes of source files. -/
structure SourceBelow (t : FileTree) (l m : Location) : Prop where
  file : t.isFileAt m = true
  below : l <+: m ∧ l ≠ m
  source : ∃ suffix ∈ sourceSuffixes, EndsWith (m.getLast?.getD "") suffix

theorem sourceBelow_append {way : List String} : t.SourceBelow l (l ++ way) ↔
    t.isFileAt (l ++ way) = true ∧ way ≠ [] ∧ ∃ suffix ∈ sourceSuffixes, EndsWith (way.getLast?.getD "") suffix := by
  constructor
  · rintro ⟨hfile, ⟨-, hne⟩, hsource⟩
    have hway : way ≠ [] := by
      rintro rfl
      exact hne (List.append_nil l).symm
    rw [List.getLast?_append_of_ne_nil _ hway] at hsource
    exact ⟨hfile, hway, hsource⟩
  · rintro ⟨hfile, hway, hsource⟩
    rw [← List.getLast?_append_of_ne_nil l hway] at hsource
    exact ⟨hfile, ⟨List.prefix_append l way, by simpa using hway⟩, hsource⟩

theorem mem_sourcesBelow {p q : Path} : q ∈ t.sourcesBelow p l ↔
    ∃ way, q = p.along way ∧ t.SourceBelow l (l ++ way) := by
  simp only [sourcesBelow, List.mem_flatMap, List.mem_map, mem_filesBelow, sourceBelow_append]
  constructor
  · rintro ⟨suffix, hsuffix, way, ⟨hfile, hway, hends⟩, rfl⟩
    exact ⟨way, rfl, hfile, hway, suffix, hsuffix, hends⟩
  · rintro ⟨way, rfl, hfile, hway, suffix, hsuffix, hends⟩
    exact ⟨suffix, hsuffix, way, ⟨hfile, hway, hends⟩, rfl⟩

/-- The order of source files: by suffix, and within one suffix by path. -/
def Precedes (p q : Path) : Prop :=
  suffixRank p.name < suffixRank q.name ∨ suffixRank p.name = suffixRank q.name ∧ p.parts < q.parts

theorem suffixRank_of_mem_filesBelow {way : List String} (p : Path) (hsuffix : suffix ∈ sourceSuffixes)
    (hway : way ∈ t.filesBelow l suffix) : suffixRank (p.along way).name = sourceSuffixes.idxOf suffix := by
  obtain ⟨-, hne, hends⟩ := mem_filesBelow.mp hway
  rw [Path.name_along p hne]
  exact suffixRank_eq hsuffix hends

theorem Listed.pairwise_sourcesBelow (h : t.Listed) (p : Path) (l : Location) :
    (t.sourcesBelow p l).Pairwise Precedes := by
  have hranks : sourceSuffixes.Pairwise fun s s' => sourceSuffixes.idxOf s < sourceSuffixes.idxOf s' := by
    decide +kernel
  refine List.pairwise_flatMap.mpr ⟨fun suffix hsuffix => ?_, ?_⟩
  · refine List.pairwise_map.mpr ((h.pairwise_filesBelow l suffix).imp_of_mem fun {a b} ha hb hlt => .inr ?_)
    change suffixRank (p.along a).name = suffixRank (p.along b).name ∧ p.parts ++ a < p.parts ++ b
    rw [suffixRank_of_mem_filesBelow p hsuffix ha, suffixRank_of_mem_filesBelow p hsuffix hb]
    exact ⟨rfl, List.append_left_lt hlt⟩
  · refine hranks.imp_of_mem fun {s s'} hs hs' hlt => ?_
    rintro _ hx _ hy
    obtain ⟨a, ha, rfl⟩ := List.mem_map.mp hx
    obtain ⟨b, hb, rfl⟩ := List.mem_map.mp hy
    refine .inl ?_
    change suffixRank (p.along a).name < suffixRank (p.along b).name
    rw [suffixRank_of_mem_filesBelow p hs ha, suffixRank_of_mem_filesBelow p hs' hb]
    exact hlt

theorem Precedes.ne {p q : Path} (h : Precedes p q) : p ≠ q := by
  rintro rfl
  obtain h | ⟨-, h⟩ := h
  · exact Nat.lt_irrefl _ h
  · exact lt_irrefl _ h

theorem findFiles_of_isDirectory (h : t.Sound) {pattern : String}
    (hdirectory : t.isDirectory (Path.ofString pattern) = true) :
    ∃ l, t.place (Path.ofString pattern) = .ok l ∧ t.findFiles pattern = t.sourcesBelow (Path.ofString pattern) l := by
  rw [isDirectory, Option.any_eq_true] at hdirectory
  obtain ⟨l, hfind, hl⟩ := hdirectory
  refine ⟨l, (find?_eq_some_iff.mp hfind).1, ?_⟩
  simp only [findFiles, hfind, hl, h.apart l hl, Bool.false_eq_true, if_false, if_true]

/-- What is found in a directory: the source files at any depth below it and nothing else, each once and by the path
that leads to it from the directory, in order of their suffixes and within one suffix of their paths. -/
theorem findFiles_directory (hsound : t.Sound) (hlisted : t.Listed) {pattern : String}
    (hdirectory : t.isDirectory (Path.ofString pattern) = true) :
    let p := Path.ofString pattern
    let found := t.findFiles pattern
    ∃ l, t.place p = .ok l ∧
      (∀ q ∈ found, ∃ way, q = p.along way ∧ t.place q = .ok (l ++ way)) ∧
      (∀ m, .ok m ∈ found.map t.place ↔ t.SourceBelow l m) ∧
      (found.map t.place).Nodup ∧
      found.Pairwise Precedes := by
  intro p found
  obtain ⟨l, hplace, hfound⟩ := findFiles_of_isDirectory hsound hdirectory
  have hmem {q : Path} : q ∈ found ↔ ∃ way, q = p.along way ∧ t.SourceBelow l (l ++ way) := by
    rw [show found = _ from hfound]
    exact mem_sourcesBelow
  have halong {way : List String} (h : t.SourceBelow l (l ++ way)) : t.place (p.along way) = .ok (l ++ way) :=
    hsound.place_along hplace (existsAt_iff.mpr (.inr h.file))
  have hordered : found.Pairwise Precedes := by
    rw [show found = _ from hfound]
    exact hlisted.pairwise_sourcesBelow p l
  refine ⟨l, hplace, ?_, ?_, ?_, hordered⟩
  · intro q hq
    obtain ⟨way, rfl, hsource⟩ := hmem.mp hq
    exact ⟨way, rfl, halong hsource⟩
  · intro m
    rw [List.mem_map]
    constructor
    · rintro ⟨q, hq, hm⟩
      obtain ⟨way, rfl, hsource⟩ := hmem.mp hq
      rw [halong hsource] at hm
      obtain rfl := Except.ok.inj hm
      exact hsource
    · intro hsource
      obtain ⟨way, rfl⟩ := hsource.below.1
      exact ⟨p.along way, hmem.mpr ⟨way, rfl, hsource⟩, halong hsource⟩
  · refine List.pairwise_map.mpr (hordered.imp_of_mem fun {q q'} hq hq' hprecedes heq => hprecedes.ne ?_)
    obtain ⟨way, rfl, hsource⟩ := hmem.mp hq
    obtain ⟨way', rfl, hsource'⟩ := hmem.mp hq'
    rw [halong hsource, halong hsource', Except.ok.injEq, List.append_cancel_left_eq] at heq
    rw [heq]

/-- A directory whose own name looks like that of a source file, with files of like suffixes beside it. -/
theorem findFiles_directory_nested :
    let t : FileTree :=
      { files := [(["a.ts"], []), (["a.tsx"], []), (["b.js", "c.jsx"], []), (["b.js", "d", "c.jsx"], []), (["e.JS"], [])]
        directories := [["b.js"], ["b.js", "d"]] }
    let p := Path.ofString "."
    let found := t.findFiles "."
    t.Sound ∧ t.Listed ∧ t.isDirectory p = true ∧
      ∃ l, t.place p = .ok l ∧
        (∀ q ∈ found, ∃ way, q = p.along way ∧ t.place q = .ok (l ++ way)) ∧
        (∀ m, .ok m ∈ found.map t.place ↔ t.SourceBelow l m) ∧
        (found.map t.place).Nodup ∧
        found.Pairwise Precedes := by
  intro t p found
  have hsound : t.Sound := sound_of_forall (by decide +kernel) (by decide +kernel) rfl
  have hlisted : t.Listed := ⟨by decide +kernel, by decide +kernel⟩
  have hdirectory : t.isDirectory p = true := by decide +kernel
  exact ⟨hsound, hlisted, hdirectory, findFiles_directory hsound hlisted hdirectory⟩

end FileTree

end MarkupIds
