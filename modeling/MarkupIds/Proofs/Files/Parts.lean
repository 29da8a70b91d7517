import Mathlib.Data.List.TakeWhile
import MarkupIds.Files.Glob
import MarkupIds.Proofs.Files.Tree
import MarkupIds.Proofs.Text.Words

/-! The paths that a text names: no part of them holds a stroke, and a name leads from a path to what has that name there. A
stroke between two texts puts the parts of one behind those of the other, and a pattern is cut into its last part and
the parts before it. -/

namespace MarkupIds

namespace Path

theorem plain_ofString (s : String) : (ofString s).Plain := by
  intro n hn
  obtain ⟨piece, hpiece, rfl⟩ := List.mem_map.mp (List.mem_of_mem_filter hn)
  rw [String.toList_ofList]
  intro hstroke
  have hnone := Text.not_of_mem_splitWhere hpiece '/' hstroke
  cases hnone

theorem ofString_of_isName {n : String} (h : IsName n) : ofString n = { parts := [n] } := by
  obtain ⟨hempty, hpoint, -, hstroke⟩ := h
  have hnone : ∀ c ∈ n.toList, (c == '/') = false := fun c hc => beq_eq_false_iff_ne.mpr fun heq => hstroke (heq ▸ hc)
  have hroot : n.toList.takeWhile (· == '/') = [] := by
    cases hn : n.toList with
    | nil => rfl
    | cons c rest => rw [List.takeWhile_cons, hnone c (hn ▸ List.mem_cons_self), if_neg Bool.false_ne_true]
  rw [ofString, rootOf, hroot, pieces, Text.splitWhere_of_forall hnone]
  simp [hempty, hpoint]

theorem child_of_isName (p : Path) {n : String} (h : IsName n) : p.child n = { p with parts := p.parts ++ [n] } := by
  rw [child, ofString_of_isName h]
  rfl

end Path

theorem Path.Plain.child {p : Path} (h : p.Plain) (name : String) : (p.child name).Plain := by
  unfold Path.child Path.join
  split
  next =>
    intro n hn
    obtain hn | hn := List.mem_append.mp hn
    · exact h n hn
    · exact Path.plain_ofString name n hn
  next => exact Path.plain_ofString name

namespace FileTree

variable {t : FileTree}

/-- The ways from a place to the files below it whose names end with a suffix, in the order of the tree. -/
def waysBelow (t : FileTree) (l : Location) (suffix : String) : List (List String) :=
  t.files.filterMap fun f =>
    if l.isPrefixOf f.1 && !(f.1.drop l.length).isEmpty &&
        suffix.toList.isSuffixOf ((f.1.drop l.length).getLast?.getD "").toList then
      some (f.1.drop l.length)
    else none

theorem filesBelow_eq (t : FileTree) (l : Location) (suffix : String) :
    t.filesBelow l suffix = (t.waysBelow l suffix).mergeSort Path.partsLe := rfl

/-- The files of a directory, where the tree has them in their order. -/
theorem findFiles_of_pairwise {pattern : String} {l : Location} (hfind : t.find? (Path.ofString pattern) = some l)
    (hfile : t.isFileAt l = false) (hdirectory : t.isDirectoryAt l = true)
    (h : ∀ suffix ∈ sourceSuffixes, (t.waysBelow l suffix).Pairwise fun a b => Path.partsLe a b = true) :
    t.findFiles pattern = sourceSuffixes.flatMap fun suffix =>
      (t.waysBelow l suffix).map fun way => { Path.ofString pattern with parts := (Path.ofString pattern).parts ++ way } := by
  simp only [findFiles, hfind, hfile, hdirectory, Bool.false_eq_true, if_false, if_true]
  refine List.flatMap_congr fun suffix hsuffix => ?_
  rw [filesBelow_eq, List.mergeSort_of_pairwise (h suffix hsuffix)]

/-- No part of the path of a file that a text names holds a stroke. -/
theorem Sound.plain_of_mem_findFiles (h : t.Sound) {pattern : String} {p : Path} (hp : p ∈ t.findFiles pattern) :
    p.Plain := by
  have hmatching (hp : p ∈ t.filesMatching pattern) : p.Plain := by
    obtain ⟨s, -, rfl⟩ := List.mem_map.mp (List.mem_of_mem_filter hp)
    exact Path.plain_ofString s
  unfold findFiles at hp
  dsimp only at hp
  split at hp
  next l _ =>
    split at hp
    next =>
      obtain rfl := List.mem_singleton.mp hp
      exact Path.plain_ofString pattern
    next =>
      split at hp
      next =>
        obtain ⟨suffix, -, hp⟩ := List.mem_flatMap.mp hp
        obtain ⟨way, hway, rfl⟩ := List.mem_map.mp hp
        rw [filesBelow_eq, List.mem_mergeSort] at hway
        obtain ⟨f, hf, hway⟩ := List.mem_filterMap.mp hway
        intro n hn
        obtain hn | hn := List.mem_append.mp hn
        · exact Path.plain_ofString pattern n hn
        · split at hway
          next =>
            obtain rfl := Option.some.inj hway
            have hfile : t.existsAt f.1 = true := by rw [existsAt, isFileAt_of_mem hf, Bool.or_true]
            exact (h.named f.1 hfile n (List.mem_of_mem_drop hn)).2.2.2
          next => cases hway
      next => exact hmatching hp
  next => exact hmatching hp

end FileTree

theorem Text.exists_mem_splitWhere {p : Char → Bool} {c : Char} {s : List Char} (hc : p c = false) (h : c ∈ s) :
    ∃ piece ∈ splitWhere p s, c ∈ piece := by
  induction s with
  | nil => cases h
  | cons d s ih =>
      rw [splitWhere_cons]
      obtain rfl | h := List.mem_cons.mp h
      · rw [hc, if_neg Bool.false_ne_true]
        exact ⟨_, List.mem_cons_self, List.mem_cons_self⟩
      · obtain ⟨piece, hpiece, hmem⟩ := ih h
        split
        · exact ⟨piece, List.mem_cons_of_mem _ hpiece, hmem⟩
        · cases hsplit : splitWhere p s with
          | nil => exact absurd hsplit (splitWhere_ne_nil p s)
          | cons first rest =>
              rw [hsplit] at hpiece
              obtain rfl | hpiece := List.mem_cons.mp hpiece
              · exact ⟨_, List.mem_cons_self, List.mem_cons_of_mem _ hmem⟩
              · exact ⟨piece, List.mem_cons_of_mem _ hpiece, hmem⟩

namespace Path

/-- The parts of a text between strokes, without those that name the directory they stand in. -/
def partsOf (s : List Char) : List String :=
  ((Text.splitWhere (· == '/') s).map String.ofList).filter fun part => part != "" && part != "."

theorem parts_ofString (s : String) : (ofString s).parts = partsOf s.toList := rfl

theorem partsOf_append_stroke (s t : List Char) : partsOf (s ++ '/' :: t) = partsOf s ++ partsOf t := by
  rw [partsOf, Text.splitWhere_append_cons (p := (· == '/')) (beq_self_eq_true '/'), List.map_append, List.filter_append]
  rfl

theorem partsOf_of_not_mem {s : List Char} (h : '/' ∉ s) :
    partsOf s = [String.ofList s].filter fun part => part != "" && part != "." := by
  have hnone : ∀ c ∈ s, (c == '/') = false := fun c hc => beq_eq_false_iff_ne.mpr fun heq => h (heq ▸ hc)
  rw [partsOf, Text.splitWhere_of_forall hnone]
  rfl

theorem partsOf_of_mem {s : List Char} (hstroke : '/' ∉ s) {part : String} (hpart : part ∈ partsOf s) :
    partsOf s = [part] ∧ part = String.ofList s := by
  rw [partsOf_of_not_mem hstroke] at hpart ⊢
  obtain ⟨hmem, hplain⟩ := List.mem_filter.mp hpart
  obtain rfl := List.mem_singleton.mp hmem
  exact ⟨List.filter_eq_self.mpr (by simpa using hplain), rfl⟩

theorem partsOf_eq_singleton {s : List Char} {part : String} (hstroke : '/' ∉ s) (hpart : String.ofList s = part)
    (hplain : (part != "" && part != ".") = true) : partsOf s = [part] := by
  rw [partsOf_of_not_mem hstroke, hpart]
  exact List.filter_eq_self.mpr (by simpa using hplain)

theorem partsOf_of_isName {n : String} (h : IsName n) : partsOf n.toList = [n] := by
  obtain ⟨hempty, hpoint, -, hstroke⟩ := h
  exact partsOf_eq_singleton hstroke String.ofList_toList (by simp [hempty, hpoint])

theorem partsOf_strokes {s : List Char} (h : ∀ c ∈ s, c = '/') : partsOf s = [] := by
  induction s with
  | nil => rfl
  | cons c s ih =>
      obtain ⟨rfl, hs⟩ := List.forall_mem_cons.mp h
      exact (partsOf_append_stroke [] s).trans (ih hs)

/-- A text is the working directory or ends with a stroke. -/
def EndsOpen (s : List Char) : Prop := s = [] ∨ ∃ t, s = t ++ ['/']

theorem partsOf_append {s : List Char} (h : EndsOpen s) (t : List Char) : partsOf (s ++ t) = partsOf s ++ partsOf t := by
  obtain rfl | ⟨u, rfl⟩ := h
  · rfl
  · rw [List.append_assoc, List.singleton_append, partsOf_append_stroke, partsOf_append_stroke u []]
    exact congrArg (· ++ _) (List.append_nil _).symm

theorem partsOf_append_strokes {s : List Char} (t : List Char) (h : ∀ c ∈ s, c = '/') : partsOf (t ++ s) = partsOf t := by
  cases s with
  | nil => rw [List.append_nil]
  | cons c s =>
      obtain ⟨rfl, hs⟩ := List.forall_mem_cons.mp h
      rw [partsOf_append_stroke, partsOf_strokes hs, List.append_nil]

section Ways

theorem toList_intercalate_cons (n : String) {way : List String} (h : way ≠ []) :
    ("/".intercalate (n :: way)).toList = n.toList ++ '/' :: ("/".intercalate way).toList := by
  rw [String.intercalate_cons_of_ne_nil h, String.toList_append, String.toList_append, List.append_assoc]
  rfl

theorem parts_intercalate {way : List String} (h : ∀ n ∈ way, IsName n) : (ofString ("/".intercalate way)).parts = way := by
  induction way with
  | nil => rfl
  | cons n way ih =>
      obtain ⟨hn, hway⟩ := List.forall_mem_cons.mp h
      by_cases hnil : way = []
      · rw [hnil, String.intercalate_singleton]
        exact partsOf_of_isName hn
      · rw [parts_ofString, toList_intercalate_cons n hnil, partsOf_append_stroke, partsOf_of_isName hn,
          ← parts_ofString, ih hway]
        rfl

theorem head?_ne_of_isName {n : String} (h : IsName n) (s : List Char) : (n.toList ++ s).head? ≠ some '/' := by
  obtain ⟨hempty, -, -, hstroke⟩ := h
  cases hn : n.toList with
  | nil => exact absurd (String.toList_eq_nil_iff.mp hn) hempty
  | cons c rest =>
      intro hhead
      obtain rfl : c = '/' := by simpa using hhead
      exact hstroke (hn ▸ List.mem_cons_self)

theorem head?_intercalate {way : List String} (h : ∀ n ∈ way, IsName n) :
    ("/".intercalate way).toList.head? ≠ some '/' := by
  cases way with
  | nil => simp
  | cons n way =>
      obtain ⟨hn, -⟩ := List.forall_mem_cons.mp h
      by_cases hnil : way = []
      · rw [hnil, String.intercalate_singleton, ← List.append_nil n.toList]
        exact head?_ne_of_isName hn []
      · rw [toList_intercalate_cons n hnil]
        exact head?_ne_of_isName hn _

/-- A name, a way of names, or nothing. -/
structure Along (s : String) : Prop where
  start : s.toList.head? ≠ some '/'
  names : ∀ n ∈ (ofString s).parts, IsName n

theorem along_intercalate {way : List String} (h : ∀ n ∈ way, IsName n) : Along ("/".intercalate way) :=
  ⟨head?_intercalate h, by rwa [parts_intercalate h]⟩

theorem along_of_isName {n : String} (h : IsName n) : Along n := by
  have halong : Along ("/".intercalate [n]) := along_intercalate (by simpa using h)
  rwa [String.intercalate_singleton] at halong

/-- Part of a path that is no step upwards. -/
theorem along_of_not_mem {s : List Char} (hstroke : '/' ∉ s) (hup : String.ofList s ≠ "..") :
    Along (String.ofList s) := by
  constructor
  · rw [String.toList_ofList]
    exact fun hhead => hstroke (List.mem_of_head? hhead)
  · rw [parts_ofString, String.toList_ofList, partsOf_of_not_mem hstroke]
    intro n hn
    obtain ⟨hn, hplain⟩ := List.mem_filter.mp hn
    obtain rfl := List.mem_singleton.mp hn
    rw [Bool.and_eq_true, bne_iff_ne, bne_iff_ne] at hplain
    exact ⟨hplain.1, hplain.2, hup, by rwa [String.toList_ofList]⟩

end Ways

end Path

namespace Glob

open MarkupIds.Path (partsOf)

theorem joined_cases (directory name : String) :
    Path.EndsOpen directory.toList ∧ (joined directory name).toList = directory.toList ++ name.toList ∨
      (directory ≠ "" ∧ directory.toList.getLast? ≠ some '/') ∧
        (joined directory name).toList = directory.toList ++ '/' :: name.toList := by
  unfold joined
  split
  next hopen =>
    rw [Bool.or_eq_true, beq_iff_eq, beq_iff_eq] at hopen
    refine .inl ⟨hopen.imp (fun h => ?_) fun h => ?_, String.toList_append⟩
    · rw [h]
      rfl
    · obtain ⟨t, ht⟩ := List.getLast?_eq_some_iff.mp h
      exact ⟨t, ht⟩
  next hclosed =>
    rw [Bool.or_eq_true, beq_iff_eq, beq_iff_eq, not_or] at hclosed
    refine .inr ⟨hclosed, ?_⟩
    rw [String.toList_append, String.toList_append, List.append_assoc]
    rfl

theorem parts_joined (directory name : String) :
    (Path.ofString (joined directory name)).parts = (Path.ofString directory).parts ++ (Path.ofString name).parts := by
  simp only [Path.parts_ofString]
  obtain ⟨hopen, heq⟩ | ⟨-, heq⟩ := joined_cases directory name
  · rw [heq, Path.partsOf_append hopen]
  · rw [heq, Path.partsOf_append_stroke]

theorem root_joined (directory : String) {name : String} (h : name.toList.head? ≠ some '/') :
    (Path.ofString (joined directory name)).root = (Path.ofString directory).root := by
  have hname : name.toList.takeWhile (· == '/') = [] := by
    cases hn : name.toList with
    | nil => rfl
    | cons c rest =>
        rw [hn] at h
        rw [List.takeWhile_cons_of_neg]
        simpa using h
  have hstrokes : (joined directory name).toList.takeWhile (· == '/') = directory.toList.takeWhile (· == '/') := by
    obtain ⟨-, heq⟩ | ⟨⟨hne, hlast⟩, heq⟩ := joined_cases directory name
    · rw [heq, List.takeWhile_append, hname, List.append_nil]
      split
      next hall => exact ((List.takeWhile_prefix _).eq_of_length hall).symm
      next => rfl
    · rw [heq, List.takeWhile_append, if_neg]
      intro hall
      have hlist : directory.toList ≠ [] := fun hnil => hne (String.toList_eq_nil_iff.mp hnil)
      have hmem := List.takeWhile_eq_self_iff.mp ((List.takeWhile_prefix _).eq_of_length hall) _ (List.getLast_mem hlist)
      rw [List.getLast?_eq_some_getLast hlist, beq_iff_eq.mp hmem] at hlast
      exact hlast rfl
  rw [Path.ofString, Path.ofString, Path.rootOf, Path.rootOf, hstrokes]

theorem partsOf_dropStrokes (s : List Char) : partsOf (s.reverse.dropWhile (· == '/')).reverse = partsOf s := by
  have hcut := List.takeWhile_append_dropWhile (p := (· == '/')) (l := s.reverse)
  have hs : s = (s.reverse.dropWhile (· == '/')).reverse ++ (s.reverse.takeWhile (· == '/')).reverse := by
    rw [← List.reverse_append, hcut, List.reverse_reverse]
  conv_rhs => rw [hs]
  refine (Path.partsOf_append_strokes _ fun c hc => ?_).symm
  have hstroke := List.mem_takeWhile_imp (p := (· == '/')) (List.mem_reverse.mp hc)
  exact beq_iff_eq.mp hstroke

/-- A pattern is what it has up to its last stroke, and its last part. -/
theorem exists_splitLast (s : List Char) :
    ∃ before, s = before ++ (splitLast s).2 ∧ '/' ∉ (splitLast s).2 ∧ Path.EndsOpen before ∧
      partsOf (splitLast s).1 = partsOf before := by
  have hcut := List.takeWhile_append_dropWhile (p := (· != '/')) (l := s.reverse)
  have hs : s = (s.reverse.dropWhile (· != '/')).reverse ++ (splitLast s).2 := by
    change s = _ ++ (s.reverse.takeWhile (· != '/')).reverse
    rw [← List.reverse_append, hcut, List.reverse_reverse]
  have take_eq {a b c : List Char} (h : a = b ++ c) : a.take (a.length - c.length) = b := by
    rw [h, List.length_append, Nat.add_sub_cancel, List.take_left]
  refine ⟨_, hs, ?_, ?_, ?_⟩
  · intro hmem
    have hnot := List.mem_takeWhile_imp (List.mem_reverse.mp hmem)
    simp at hnot
  · cases hbefore : s.reverse.dropWhile (· != '/') with
    | nil => exact .inl rfl
    | cons c rest =>
        have hfirst := List.head?_dropWhile_not (· != '/') s.reverse
        rw [hbefore] at hfirst
        obtain rfl : c = '/' := by simpa using hfirst
        exact .inr ⟨rest.reverse, List.reverse_cons⟩
  · have hfirst : (splitLast s).1 =
        if (s.take (s.length - (splitLast s).2.length)).all (· == '/') then s.take (s.length - (splitLast s).2.length)
        else ((s.take (s.length - (splitLast s).2.length)).reverse.dropWhile (· == '/')).reverse := rfl
    rw [hfirst, take_eq hs]
    split
    · rfl
    · rw [partsOf_dropStrokes]

theorem partsOf_splitLast (s : List Char) : partsOf s = partsOf (splitLast s).1 ++ partsOf (splitLast s).2 := by
  obtain ⟨before, hs, -, hopen, hparts⟩ := exists_splitLast s
  rw [hparts, ← Path.partsOf_append hopen, ← hs]

/-- A text is a pattern if one of its parts is. -/
theorem isPattern_iff {s : List Char} : isPattern s = true ↔ ∃ part ∈ partsOf s, isPattern part.toList = true := by
  unfold isPattern
  simp only [List.any_eq_true]
  constructor
  · rintro ⟨c, hc, hwild⟩
    have hstroke : (c == '/') = false := by
      rw [beq_eq_false_iff_ne]
      rintro rfl
      cases hwild
    obtain ⟨piece, hpiece, hmem⟩ := Text.exists_mem_splitWhere (p := (· == '/')) hstroke hc
    refine ⟨String.ofList piece, ?_, c, by rwa [String.toList_ofList], hwild⟩
    refine List.mem_filter.mpr ⟨List.mem_map_of_mem hpiece, ?_⟩
    rw [Bool.and_eq_true, bne_iff_ne, bne_iff_ne]
    constructor
    · intro hempty
      rw [← String.toList_eq_nil_iff, String.toList_ofList] at hempty
      rw [hempty] at hmem
      cases hmem
    · intro hpoint
      rw [← String.toList_inj, String.toList_ofList] at hpoint
      rw [hpoint] at hmem
      obtain rfl := List.mem_singleton.mp hmem
      cases hwild
  · rintro ⟨part, hpart, c, hc, hwild⟩
    obtain ⟨piece, hpiece, rfl⟩ := List.mem_map.mp (List.mem_of_mem_filter hpart)
    rw [String.toList_ofList] at hc
    exact ⟨c, Text.mem_of_mem_splitWhere hpiece hc, hwild⟩

/-- The part of a path that is a pattern is the only part of its text. -/
theorem partsOf_of_isPattern {s : List Char} (hstroke : '/' ∉ s) (hpattern : isPattern s = true) :
    partsOf s = [String.ofList s] := by
  obtain ⟨part, hpart, -⟩ := isPattern_iff.mp hpattern
  obtain ⟨hparts, rfl⟩ := Path.partsOf_of_mem hstroke hpart
  exact hparts

end Glob

end MarkupIds
