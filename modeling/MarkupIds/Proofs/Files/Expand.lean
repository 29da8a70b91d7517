import Mathlib.Data.List.Chain
import Mathlib.Data.List.Nodup
import MarkupIds.Proofs.Files.Parts
import MarkupIds.Proofs.Files.Way

/-! What a pattern expands to. A part for any directories passes names of any number, but no hidden ones, so that a
part which starts with a point tells where it stands. Where such a part separates any two parts for any directories,
and no step upwards follows a part that is a pattern, no place is reached twice. -/

namespace MarkupIds

open Glob (joined isPattern isHidden)

namespace Glob

/-- The parts that stand for any directories, and those that start with a point. -/
def marks (parts : List String) : List String := parts.filter fun part => part == "**" || isHidden part

/-- Nothing tells how deep the places stand that the parts lead to: behind the last part for any directories there is
no part that starts with a point. -/
def Loose (parts : List String) : Prop := (marks parts).getLast? = some "**"

/-- Between any two parts for any directories there is one that starts with a point, and no step upwards follows a part
that is a pattern. -/
structure Direct (parts : List String) : Prop where
  separated : (marks parts).IsChain fun a b => a ≠ "**" ∨ b ≠ "**"
  onwards : ".." ∉ parts.dropWhile fun part => !isPattern part.toList

variable {parts rest : List String}

theorem marks_append : marks (parts ++ rest) = marks parts ++ marks rest := List.filter_append ..

theorem loose_append_any : Loose (parts ++ ["**"]) := by
  rw [Loose, marks_append]
  exact List.getLast?_concat

theorem loose_append (h : ∀ part ∈ rest, part ≠ "**" ∧ isHidden part = false) : Loose (parts ++ rest) ↔ Loose parts := by
  have hnone : marks rest = [] := by
    rw [marks, List.filter_eq_nil_iff]
    intro part hpart
    obtain ⟨hany, hshown⟩ := h part hpart
    simp [hany, hshown]
  rw [Loose, marks_append, hnone, List.append_nil, Loose]

namespace Direct

theorem of_append (h : Direct (parts ++ rest)) : Direct parts := by
  refine ⟨?_, fun hup => h.onwards ?_⟩
  · have hseparated := h.separated
    rw [marks_append] at hseparated
    exact hseparated.left_of_append
  · rw [List.dropWhile_append]
    split
    next hnil =>
      rw [List.isEmpty_iff.mp hnil] at hup
      cases hup
    next => exact List.mem_append_left _ hup

/-- Behind a part that is a pattern there is no step upwards. -/
theorem not_mem_of_pattern (h : Direct (parts ++ rest)) {part : String} (hpart : part ∈ parts)
    (hpattern : isPattern part.toList = true) : ".." ∉ rest := by
  intro hup
  refine h.onwards ?_
  rw [List.dropWhile_append, if_neg]
  · exact List.mem_append_right _ hup
  · rw [List.isEmpty_iff, List.dropWhile_eq_nil_iff]
    intro hall
    have hplain := hall part hpart
    rw [hpattern] at hplain
    cases hplain

theorem not_loose_of_last (h : Direct (parts ++ ["**"])) : ¬Loose parts := by
  intro hloose
  have hseparated := h.separated
  rw [marks_append, List.isChain_append] at hseparated
  obtain hne | hne := hseparated.2.2 "**" hloose "**" rfl
  · exact hne rfl
  · exact hne rfl

/-- The last part of a pattern is no step upwards. -/
theorem splitLast_ne {pattern : List Char} (h : Direct (Path.partsOf pattern)) (hpattern : isPattern pattern = true) :
    String.ofList (splitLast pattern).2 ≠ ".." := by
  intro hup
  obtain ⟨-, -, hstroke, -, -⟩ := exists_splitLast pattern
  have htail := Path.partsOf_eq_singleton hstroke hup rfl
  rw [partsOf_splitLast, htail] at h
  obtain ⟨part, hpart, hwild⟩ := isPattern_iff.mp hpattern
  rw [partsOf_splitLast, htail] at hpart
  obtain hpart | hpart := List.mem_append.mp hpart
  · exact h.not_mem_of_pattern hpart hwild List.mem_cons_self
  · rw [List.mem_singleton.mp hpart] at hwild
    cases hwild

end Direct

theorem isHidden_iff {s : String} : isHidden s = true ↔ ∃ rest, s.toList = '.' :: rest := by
  rw [isHidden, beq_iff_eq, List.head?_eq_some_iff]

/-- A pattern that starts with a point matches hidden names alone. -/
theorem isHidden_of_matchesName {pattern name : String} (hpattern : isHidden pattern = true)
    (h : matchesName pattern name = true) : isHidden name = true := by
  obtain ⟨rest, hrest⟩ := isHidden_iff.mp hpattern
  have hpieces : pieces pattern.toList = .char '.' :: piecesFrom rest.length rest := by
    rw [hrest]
    rfl
  rw [matchesName, hpieces] at h
  cases hname : name.toList with
  | nil => simp [hname, matchesPieces] at h
  | cons c more =>
      simp only [hname, matchesPieces, Bool.and_eq_true] at h
      obtain rfl : c = '.' := beq_iff_eq.mp h.1
      exact isHidden_iff.mpr ⟨more, hname⟩

end Glob

namespace FileTree

variable {t : FileTree} {l : Location} {onlyDirectories : Bool}

/-- The place that a text leads to. -/
def reached (t : FileTree) (s : String) : Location := t.target (Path.ofString s)

theorem reached_joined (directory : String) {name : String} (h : Path.Along name) :
    t.reached (joined directory name) = t.reached directory ++ (Path.ofString name).parts := by
  rw [reached, target, Glob.root_joined directory h.start, Glob.parts_joined, List.foldl_append,
    foldl_enter_of_isName h.names]
  rfl

section Names

theorem nameIn?_eq_some {directory : Location} {n : String} : nameIn? directory l = some n ↔ l = directory ++ [n] := by
  unfold nameIn?
  constructor
  · intro h
    split at h
    next hdirectory =>
      obtain ⟨init, rfl⟩ := List.getLast?_eq_some_iff.mp h
      rw [List.dropLast_concat] at hdirectory
      rw [beq_iff_eq.mp hdirectory]
    next => cases h
  · rintro rfl
    rw [List.dropLast_concat, beq_self_eq_true, if_pos rfl, List.getLast?_concat]

/-- The places of files and directories, or of directories alone. -/
def places (t : FileTree) (onlyDirectories : Bool) : List Location :=
  t.directories ++ if onlyDirectories then [] else t.files.map Prod.fst

theorem existsAt_of_mem_places (h : l ∈ t.places onlyDirectories) : t.existsAt l = true := by
  rw [existsAt_iff]
  obtain h | h := List.mem_append.mp h
  · left
    rw [isDirectoryAt, List.contains_iff_mem.mpr h, Bool.or_true]
  · right
    split at h
    next => cases h
    next => exact isFileAt_iff_mem.mpr h

/-- Nothing is in two places. -/
theorem Sound.nodup_places (h : t.Sound) (hlisted : t.Listed) (onlyDirectories : Bool) :
    (t.places onlyDirectories).Nodup := by
  unfold places
  split
  · rw [List.append_nil]
    exact hlisted.directories
  · refine hlisted.directories.append hlisted.files fun l hdirectory hfile => ?_
    have hapart := h.apart l (by rw [isDirectoryAt, List.contains_iff_mem.mpr hdirectory, Bool.or_true])
    rw [isFileAt_iff_mem.mpr hfile] at hapart
    cases hapart

theorem namesIn_eq (t : FileTree) (l : Location) (onlyDirectories : Bool) :
    t.namesIn l onlyDirectories = (t.places onlyDirectories).filterMap (nameIn? l) := by
  rw [places, List.filterMap_append, namesIn]
  cases onlyDirectories <;> simp

theorem existsAt_of_mem_namesIn {n : String} (h : n ∈ t.namesIn l onlyDirectories) : t.existsAt (l ++ [n]) = true := by
  rw [namesIn_eq] at h
  obtain ⟨m, hm, hn⟩ := List.mem_filterMap.mp h
  exact nameIn?_eq_some.mp hn ▸ existsAt_of_mem_places hm

theorem Sound.nodup_namesIn (h : t.Sound) (hlisted : t.Listed) : (t.namesIn l onlyDirectories).Nodup := by
  rw [namesIn_eq]
  refine (h.nodup_places hlisted onlyDirectories).filterMap fun m m' n hm hm' => ?_
  rw [nameIn?_eq_some.mp hm, nameIn?_eq_some.mp hm']

/-- A way on which no name is hidden. -/
def Shown (way : List String) : Prop := ∀ n ∈ way, isHidden n = false

/-- The ways on which nothing is hidden from a place to what stands below it. -/
def openWays (t : FileTree) (l : Location) (onlyDirectories : Bool) : List (List String) :=
  waysTo (fun way => !way.any isHidden) l (t.places onlyDirectories)

theorem below_eq (t : FileTree) (l : Location) (onlyDirectories : Bool) :
    t.below l onlyDirectories = (t.openWays l onlyDirectories).map ("/".intercalate ·) := by
  rw [openWays, waysTo, List.map_filterMap]
  refine List.filterMap_congr fun m _ => ?_
  unfold wayTo?
  dsimp only
  split <;> rfl

theorem Sound.of_mem_openWays (h : t.Sound) {way : List String} (hway : way ∈ t.openWays l onlyDirectories) :
    way ≠ [] ∧ (∀ n ∈ way, IsName n) ∧ Shown way := by
  obtain ⟨hmem, hne, hopen⟩ := mem_waysTo.mp hway
  refine ⟨hne, fun n hn => h.named _ (existsAt_of_mem_places hmem) n (List.mem_append_right l hn), fun n hn => ?_⟩
  rw [Bool.not_eq_true', List.any_eq_false] at hopen
  exact Bool.eq_false_iff.mpr (hopen n hn)

end Names

section Added

/-- Ways of names that lead from one directory to pairwise different places. -/
structure Forked (names : List String) : Prop where
  along : ∀ name ∈ names, Path.Along name
  apart : names.Pairwise fun v w => (Path.ofString v).parts ≠ (Path.ofString w).parts

theorem forked_intercalate {ways : List (List String)} (hnodup : ways.Nodup) (hnames : ∀ way ∈ ways, ∀ n ∈ way, IsName n) :
    Forked (ways.map ("/".intercalate ·)) := by
  constructor
  · exact List.forall_mem_map.mpr fun way hway => Path.along_intercalate (hnames way hway)
  · refine List.pairwise_map.mpr (hnodup.imp_of_mem fun {v w} hv hw hne => ?_)
    rwa [Path.parts_intercalate (hnames v hv), Path.parts_intercalate (hnames w hw)]

variable {directory name : String}

theorem Sound.forked_withBelow (h : t.Sound) (hlisted : t.Listed) : Forked (t.withBelow directory onlyDirectories) := by
  unfold withBelow
  split
  next => exact ⟨by simp, .nil⟩
  next l _ =>
    rw [below_eq]
    change Forked (([] :: t.openWays l onlyDirectories).map ("/".intercalate ·))
    refine forked_intercalate (List.nodup_cons.mpr ⟨fun hnil => ?_, nodup_waysTo (h.nodup_places hlisted _)⟩) ?_
    · exact (h.of_mem_openWays hnil).1 rfl
    · exact List.forall_mem_cons.mpr ⟨by simp, fun way hway => (h.of_mem_openWays hway).2.1⟩

theorem exists_of_mem_namesMatching {pattern : String}
    (hname : name ∈ t.namesMatching directory pattern onlyDirectories) :
    ∃ l, name ∈ t.namesIn l onlyDirectories ∧ (isHidden pattern || !isHidden name) = true ∧
      Glob.matchesName pattern name = true := by
  unfold namesMatching at hname
  split at hname
  next => cases hname
  next l _ =>
    obtain ⟨hmem, hmatches⟩ := List.mem_filter.mp hname
    exact ⟨l, hmem, Bool.and_eq_true_iff.mp hmatches⟩

theorem Sound.isName_of_mem_namesMatching (h : t.Sound) {pattern : String}
    (hname : name ∈ t.namesMatching directory pattern onlyDirectories) : IsName name := by
  obtain ⟨l, hmem, -⟩ := exists_of_mem_namesMatching hname
  exact h.named _ (existsAt_of_mem_namesIn hmem) name (List.mem_append_right l List.mem_cons_self)

theorem Sound.parts_of_mem_namesMatching (h : t.Sound) {pattern : String}
    (hname : name ∈ t.namesMatching directory pattern onlyDirectories) : (Path.ofString name).parts = [name] :=
  Path.partsOf_of_isName (h.isName_of_mem_namesMatching hname)

theorem Sound.nodup_namesMatching (h : t.Sound) (hlisted : t.Listed) {pattern : String} :
    (t.namesMatching directory pattern onlyDirectories).Nodup := by
  unfold namesMatching
  split
  next => exact .nil
  next => exact (h.nodup_namesIn hlisted).filter _

theorem Sound.forked_namesMatching (h : t.Sound) (hlisted : t.Listed) {pattern : String} :
    Forked (t.namesMatching directory pattern onlyDirectories) := by
  constructor
  · exact fun name hname => Path.along_of_isName (h.isName_of_mem_namesMatching hname)
  · refine (h.nodup_namesMatching hlisted).imp_of_mem fun {v w} hv hw hne heq => hne ?_
    rw [h.parts_of_mem_namesMatching hv, h.parts_of_mem_namesMatching hw] at heq
    exact List.singleton_inj.mp heq

theorem nameItself_sublist (t : FileTree) (directory name : String) :
    (t.nameItself directory name).Sublist [name] := by
  unfold nameItself
  extract_lets isThere
  split
  · exact List.Sublist.refl _
  · exact List.nil_sublist _

theorem mem_nameItself {name' : String} (h : name' ∈ t.nameItself directory name) : name' = name :=
  List.mem_singleton.mp ((nameItself_sublist t directory name).subset h)

theorem forked_nameItself (hname : Path.Along name) : Forked (t.nameItself directory name) where
  along _ h := mem_nameItself h ▸ hname
  apart := (List.pairwise_singleton _ name).sublist (nameItself_sublist t directory name)

/-- What the last part of a pattern adds to a directory. -/
def added (t : FileTree) (tail : List Char) (onlyDirectories : Bool) (directory : String) : List String :=
  if String.ofList tail == "**" then t.withBelow directory onlyDirectories
  else if isPattern tail then t.namesMatching directory (String.ofList tail) onlyDirectories
  else t.nameItself directory (String.ofList tail)

variable {tail : List Char}

theorem Sound.forked_added (h : t.Sound) (hlisted : t.Listed) (hstroke : '/' ∉ tail)
    (hup : String.ofList tail ≠ "..") : Forked (t.added tail onlyDirectories directory) := by
  unfold added
  split
  next => exact h.forked_withBelow hlisted
  next =>
    split
    next => exact h.forked_namesMatching hlisted
    next => exact forked_nameItself (Path.along_of_not_mem hstroke hup)

/-- Unless it stands for any directories, the last part of a pattern adds as many names everywhere. -/
theorem Sound.length_added (h : t.Sound) (hany : String.ofList tail ≠ "**") {directory' name' : String}
    (hname : name ∈ t.added tail onlyDirectories directory) (hname' : name' ∈ t.added tail onlyDirectories directory') :
    (Path.ofString name).parts.length = (Path.ofString name').parts.length := by
  unfold added at hname hname'
  rw [if_neg (by simpa using hany)] at hname hname'
  split at hname
  next hpattern =>
    rw [if_pos hpattern] at hname'
    rw [h.parts_of_mem_namesMatching hname, h.parts_of_mem_namesMatching hname']
    rfl
  next hpattern =>
    rw [if_neg hpattern] at hname'
    rw [mem_nameItself hname, mem_nameItself hname']

/-- A part that stands for any directories passes no hidden names. -/
theorem Sound.shown_withBelow (h : t.Sound) (hname : name ∈ t.withBelow directory onlyDirectories) :
    Shown (Path.ofString name).parts := by
  unfold withBelow at hname
  split at hname
  next => cases hname
  next l _ =>
    obtain rfl | hname := List.mem_cons.mp hname
    · exact fun n hn => nomatch hn
    · rw [below_eq] at hname
      obtain ⟨way, hway, rfl⟩ := List.mem_map.mp hname
      obtain ⟨-, hnames, hshown⟩ := h.of_mem_openWays hway
      rwa [Path.parts_intercalate hnames]

/-- A part that does not start with a point adds no hidden names. -/
theorem Sound.shown_added (h : t.Sound) (hstroke : '/' ∉ tail) (hshown : Shown (Path.partsOf tail))
    (hname : name ∈ t.added tail onlyDirectories directory) : Shown (Path.ofString name).parts := by
  unfold added at hname
  split at hname
  next => exact h.shown_withBelow hname
  next =>
    split at hname
    next hpattern =>
      rw [h.parts_of_mem_namesMatching hname]
      rw [Glob.partsOf_of_isPattern hstroke hpattern] at hshown
      obtain ⟨-, -, hmatches, -⟩ := exists_of_mem_namesMatching hname
      rw [hshown _ List.mem_cons_self, Bool.false_or, Bool.not_eq_true'] at hmatches
      exact fun n hn => List.mem_singleton.mp hn ▸ hmatches
    next => rwa [mem_nameItself hname, Path.parts_ofString, String.toList_ofList]

/-- A part that starts with a point adds one hidden name. -/
theorem Sound.hidden_added (h : t.Sound) (hstroke : '/' ∉ tail) {part : String} (hparts : Path.partsOf tail = [part])
    (hhidden : isHidden part = true) (hname : name ∈ t.added tail onlyDirectories directory) :
    ∃ n, (Path.ofString name).parts = [n] ∧ isHidden n = true := by
  unfold added at hname
  split at hname
  next hany =>
    rw [Path.partsOf_eq_singleton hstroke (beq_iff_eq.mp hany) rfl] at hparts
    obtain rfl := List.singleton_inj.mp hparts
    cases hhidden
  next =>
    split at hname
    next hpattern =>
      rw [Glob.partsOf_of_isPattern hstroke hpattern] at hparts
      obtain rfl := List.singleton_inj.mp hparts
      obtain ⟨-, -, -, hmatches⟩ := exists_of_mem_namesMatching hname
      exact ⟨name, h.parts_of_mem_namesMatching hname, Glob.isHidden_of_matchesName hhidden hmatches⟩
    next => exact ⟨part, by rwa [mem_nameItself hname, Path.parts_ofString, String.toList_ofList], hhidden⟩

end Added

section Step

/-- Texts that lead to pairwise different places. -/
def Apart (t : FileTree) (found : List String) : Prop := found.Pairwise fun a b => t.reached a ≠ t.reached b

/-- Texts from no two of which one place is reached by names that are not hidden. -/
def Parted (t : FileTree) (found : List String) : Prop :=
  found.Pairwise fun a b => ∀ v w, Shown v → Shown w → t.reached a ++ v ≠ t.reached b ++ w

/-- Ways of equally many names, whichever of the directories they start from. -/
def Even (names : String → List String) (directories : List String) : Prop :=
  ∀ d ∈ directories, ∀ n ∈ names d, ∀ d' ∈ directories, ∀ n' ∈ names d',
    (Path.ofString n).parts.length = (Path.ofString n').parts.length

variable {directories : List String} {names : String → List String}

/-- What holds of any two places that are reached by a step holds of any two texts that the step makes. -/
theorem pairwise_joined {R : Location → Location → Prop} (hforked : ∀ d ∈ directories, Forked (names d))
    (hinner : ∀ d ∈ directories, ∀ n ∈ names d, ∀ n' ∈ names d, (Path.ofString n).parts ≠ (Path.ofString n').parts →
      R (t.reached d ++ (Path.ofString n).parts) (t.reached d ++ (Path.ofString n').parts))
    (hacross : directories.Pairwise fun d d' => ∀ n ∈ names d, ∀ n' ∈ names d',
      R (t.reached d ++ (Path.ofString n).parts) (t.reached d' ++ (Path.ofString n').parts)) :
    (directories.flatMap fun d => (names d).map (joined d)).Pairwise fun a b => R (t.reached a) (t.reached b) := by
  refine List.pairwise_flatMap.mpr ⟨fun d hd => ?_, hacross.imp_of_mem fun {d d'} hd hd' hR => ?_⟩
  · refine List.pairwise_map.mpr ((hforked d hd).apart.imp_of_mem fun {n n'} hn hn' hne => ?_)
    rw [reached_joined d ((hforked d hd).along n hn), reached_joined d ((hforked d hd).along n' hn')]
    exact hinner d hd n hn n' hn' hne
  · rintro _ hx _ hy
    obtain ⟨n, hn, rfl⟩ := List.mem_map.mp hx
    obtain ⟨n', hn', rfl⟩ := List.mem_map.mp hy
    rw [reached_joined d ((hforked d hd).along n hn), reached_joined d' ((hforked d' hd').along n' hn')]
    exact hR n hn n' hn'

theorem Apart.joined (hapart : t.Apart directories) (hforked : ∀ d ∈ directories, Forked (names d))
    (heven : Even names directories) : t.Apart (directories.flatMap fun d => (names d).map (joined d)) := by
  refine pairwise_joined (R := (· ≠ ·)) hforked (fun d _ n _ n' _ hne => ?_) ?_
  · rwa [ne_eq, List.append_cancel_left_eq]
  · refine hapart.imp_of_mem fun {d d'} hd hd' hne n hn n' hn' heq => hne ?_
    exact (List.append_inj' heq (heven d hd n hn d' hd' n' hn')).1

/-- From directories that are parted, names that are not hidden lead apart, however many they are. -/
theorem Parted.apart_joined (hparted : t.Parted directories) (hforked : ∀ d ∈ directories, Forked (names d))
    (hshown : ∀ d ∈ directories, ∀ n ∈ names d, Shown (Path.ofString n).parts) :
    t.Apart (directories.flatMap fun d => (names d).map (joined d)) := by
  refine pairwise_joined (R := (· ≠ ·)) hforked (fun d _ n _ n' _ hne => ?_) ?_
  · rwa [ne_eq, List.append_cancel_left_eq]
  · exact hparted.imp_of_mem fun {d d'} hd hd' hne n hn n' hn' => hne _ _ (hshown d hd n hn) (hshown d' hd' n' hn')

theorem Parted.joined (hparted : t.Parted directories) (hforked : ∀ d ∈ directories, Forked (names d))
    (heven : Even names directories) (hshown : ∀ d ∈ directories, ∀ n ∈ names d, Shown (Path.ofString n).parts) :
    t.Parted (directories.flatMap fun d => (names d).map (joined d)) := by
  refine pairwise_joined (R := fun l m => ∀ v w, Shown v → Shown w → l ++ v ≠ m ++ w) hforked ?_ ?_
  · intro d hd n hn n' hn' hne v w _ _ heq
    rw [List.append_assoc, List.append_assoc, List.append_cancel_left_eq] at heq
    exact hne (List.append_inj heq (heven d hd n hn d hd n' hn')).1
  · refine hparted.imp_of_mem fun {d d'} hd hd' hne n hn n' hn' v w hv hw => ?_
    rw [List.append_assoc, List.append_assoc]
    exact hne _ _ (List.forall_mem_append.mpr ⟨hshown d hd n hn, hv⟩)
      (List.forall_mem_append.mpr ⟨hshown d' hd' n' hn', hw⟩)

theorem nil_of_append_shown {l l' u : List String} {n' : String} (h : l' ++ [n'] = l ++ u) (hn' : isHidden n' = true)
    (hu : Shown u) : u = [] := by
  by_contra hne
  have hlast := congrArg List.getLast? h
  rw [List.getLast?_concat, List.getLast?_append_of_ne_nil _ hne] at hlast
  rw [hu n' (List.mem_of_getLast? hlast.symm)] at hn'
  cases hn'

/-- Places that end with hidden names are parted if they are apart: the last hidden name of what is reached from them
tells which of them it is reached from. -/
theorem Apart.parted {found : List String} (hapart : t.Apart found)
    (hhidden : ∀ a ∈ found, ∃ l n, t.reached a = l ++ [n] ∧ isHidden n = true) : t.Parted found := by
  refine hapart.imp_of_mem fun {a b} ha hb hne v w hv hw heq => hne ?_
  obtain ⟨l, n, hl, hn⟩ := hhidden a ha
  obtain ⟨l', n', hl', hn'⟩ := hhidden b hb
  rw [hl, hl'] at heq ⊢
  obtain ⟨u, hu, rfl⟩ | ⟨u, hu, rfl⟩ := List.append_eq_append_iff.mp heq
  · rw [hu, nil_of_append_shown hu hn' (List.forall_mem_append.mp hv).1, List.append_nil]
  · rw [hu, nil_of_append_shown hu hn (List.forall_mem_append.mp hw).1, List.append_nil]

/-- What the parts of a pattern lead to: no place twice, and behind a part that tells how deep the places stand, nor
any place below two of them by names that are not hidden. -/
structure LedBy (t : FileTree) (parts found : List String) : Prop where
  apart : t.Apart found
  parted : ¬Glob.Loose parts → t.Parted found

/-- One more part of a direct pattern leads apart what the parts before it have led apart. -/
theorem Sound.ledBy_joined (h : t.Sound) (hlisted : t.Listed) {parts : List String} {tail : List Char}
    (hstroke : '/' ∉ tail) (hup : String.ofList tail ≠ "..") (hdirect : Glob.Direct (parts ++ Path.partsOf tail))
    (hled : t.LedBy parts directories) : t.LedBy (parts ++ Path.partsOf tail)
      (directories.flatMap fun d => (t.added tail onlyDirectories d).map (joined d)) := by
  have hforked : ∀ d ∈ directories, Forked (t.added tail onlyDirectories d) :=
    fun d _ => h.forked_added hlisted hstroke hup
  by_cases hany : String.ofList tail = "**"
  · have htail := Path.partsOf_eq_singleton hstroke hany rfl
    have hshown : Shown (Path.partsOf tail) := by
      rw [htail]
      exact fun n hn => List.mem_singleton.mp hn ▸ rfl
    rw [htail] at hdirect ⊢
    refine ⟨(hled.parted hdirect.not_loose_of_last).apart_joined hforked fun _ _ _ hn => ?_, fun hnot => ?_⟩
    · exact h.shown_added hstroke hshown hn
    · exact absurd Glob.loose_append_any hnot
  · have heven : Even (t.added tail onlyDirectories) directories :=
      fun _ _ _ hn _ _ _ hn' => h.length_added hany hn hn'
    have hjoined := hled.apart.joined hforked heven
    refine ⟨hjoined, fun hnot => ?_⟩
    by_cases hshown : Shown (Path.partsOf tail)
    · rw [Glob.loose_append fun part hpart => ⟨(Path.partsOf_of_mem hstroke hpart).2 ▸ hany, hshown part hpart⟩] at hnot
      exact (hled.parted hnot).joined hforked heven fun _ _ _ hn => h.shown_added hstroke hshown hn
    · refine hjoined.parted fun a ha => ?_
      obtain ⟨d, hd, ha⟩ := List.mem_flatMap.mp ha
      obtain ⟨name, hname, rfl⟩ := List.mem_map.mp ha
      obtain ⟨part, hpart, hhidden⟩ : ∃ part ∈ Path.partsOf tail, isHidden part = true := by
        simpa [Shown] using hshown
      obtain ⟨n, hn, hhidden⟩ := h.hidden_added hstroke (Path.partsOf_of_mem hstroke hpart).1 hhidden hname
      exact ⟨t.reached d, n, by rw [reached_joined d ((hforked d hd).along name hname), hn], hhidden⟩

end Step

section Expansion

variable {fuel : Nat} {pattern : List Char}

/-- The directories that the parts before the last one stand for. -/
def passed (t : FileTree) (fuel : Nat) (head : List Char) : List String :=
  if isPattern head then t.expandFrom fuel head true else [String.ofList head]

theorem expandFrom_of_isPattern (h : isPattern pattern = true) : t.expandFrom (fuel + 1) pattern onlyDirectories =
    (t.passed fuel (Glob.splitLast pattern).1).flatMap fun directory =>
      (t.added (Glob.splitLast pattern).2 onlyDirectories directory).map (joined directory) := by
  rw [expandFrom, h]
  rfl

theorem expandFrom_sublist (h : isPattern pattern = false) :
    (t.expandFrom fuel pattern onlyDirectories).Sublist [String.ofList pattern] := by
  cases fuel with
  | zero => exact List.nil_sublist _
  | succ fuel =>
      rw [expandFrom, h]
      obtain ⟨head, tail⟩ := Glob.splitLast pattern
      dsimp -zeta only
      extract_lets name path isThere
      rw [Bool.not_false, if_pos rfl]
      split
      · exact List.Sublist.refl _
      · exact List.nil_sublist _

theorem ledBy_of_sublist {parts found : List String} {s : String} (h : found.Sublist [s]) : t.LedBy parts found :=
  ⟨(List.pairwise_singleton _ s).sublist h, fun _ => (List.pairwise_singleton _ s).sublist h⟩

/-- What a direct pattern expands to. -/
theorem Sound.ledBy_expandFrom (h : t.Sound) (hlisted : t.Listed) (fuel : Nat) (pattern : List Char)
    (onlyDirectories : Bool) (hdirect : Glob.Direct (Path.partsOf pattern)) :
    t.LedBy (Path.partsOf pattern) (t.expandFrom fuel pattern onlyDirectories) := by
  induction fuel generalizing pattern onlyDirectories with
  | zero => exact ⟨.nil, fun _ => .nil⟩
  | succ fuel ih =>
      cases hpattern : isPattern pattern with
      | false => exact ledBy_of_sublist (expandFrom_sublist hpattern)
      | true =>
          have hup := hdirect.splitLast_ne hpattern
          obtain ⟨-, -, hstroke, -, -⟩ := Glob.exists_splitLast pattern
          rw [expandFrom_of_isPattern hpattern]
          rw [Glob.partsOf_splitLast pattern] at hdirect ⊢
          refine h.ledBy_joined hlisted hstroke hup hdirect ?_
          unfold passed
          split
          · exact ih _ true hdirect.of_append
          · exact ledBy_of_sublist (List.Sublist.refl _)

end Expansion

section Found

variable {p : Path} {pattern : String}

theorem find?_of_isFile (h : t.isFile p = true) : t.find? p = some (t.target p) := by
  rw [isFile, Option.any_eq_true] at h
  obtain ⟨l, hfind, -⟩ := h
  obtain ⟨hplace, -⟩ := find?_eq_some_iff.mp hfind
  rw [hfind, (place_eq_ok_iff.mp hplace).1]

theorem isFile_of_mem_filesMatching (hp : p ∈ t.filesMatching pattern) : t.isFile p = true := (List.mem_filter.mp hp).2

/-- The files that match a pattern, where the paths are found in their order. -/
theorem filesMatching_of_pairwise (h : (t.expand pattern).Pairwise fun a b => decide (a ≤ b) = true) :
    t.filesMatching pattern = ((t.expand pattern).map Path.ofString).filter t.isFile := by
  simp only [filesMatching, List.mergeSort_of_pairwise h]

/-- The files that match a direct pattern are found at pairwise different places. -/
theorem Sound.nodup_filesMatching (h : t.Sound) (hlisted : t.Listed)
    (hdirect : Glob.Direct (Path.ofString pattern).parts) : ((t.filesMatching pattern).map t.find?).Nodup := by
  have hexpand : t.Apart (t.expand pattern) := (h.ledBy_expandFrom hlisted _ pattern.toList false hdirect).apart
  have hsorted : t.Apart ((t.expand pattern).mergeSort fun a b => a ≤ b) :=
    ((List.mergeSort_perm _ _).pairwise_iff Ne.symm).mpr hexpand
  have hpaths := (List.pairwise_map (R := fun p q => t.target p ≠ t.target q) (f := Path.ofString)).mpr hsorted
  refine List.pairwise_map.mpr ((hpaths.filter t.isFile).imp_of_mem fun {p q} hp hq hne heq => hne ?_)
  rw [find?_of_isFile (isFile_of_mem_filesMatching hp), find?_of_isFile (isFile_of_mem_filesMatching hq)] at heq
  exact Option.some.inj heq

theorem findFiles_eq_filesMatching (hfile : t.isFile (Path.ofString pattern) = false)
    (hdirectory : t.isDirectory (Path.ofString pattern) = false) : t.findFiles pattern = t.filesMatching pattern := by
  unfold isFile at hfile
  unfold isDirectory at hdirectory
  unfold findFiles
  dsimp only
  split
  next l hfind =>
    rw [hfind, Option.any_some] at hfile hdirectory
    rw [hfile, hdirectory]
    rfl
  next => rfl

end Found

end FileTree

end MarkupIds
