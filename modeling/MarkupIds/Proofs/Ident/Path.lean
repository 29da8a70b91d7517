import MarkupIds.Proofs.Ident.Ledger

/-! Ids made of a name and a path. What stands behind the last hyphen tells the last number of the
path, whatever hyphens and digits the name itself has. So paths that end in different numbers never
lead to the same candidate, and no such candidate needs a number behind it. -/

namespace MarkupIds.Generator

variable {α : Type}

/-- Where the candidates are pairwise distinct and none of them is used, each is handed out as it is. -/
theorem serve_of_nodup {o : Options} {used : List String} {requests : List (α × Option Descriptor)}
    (hnodup : ((requests.filterMap Prod.snd).map (candidate · o)).Nodup)
    (hfree : ∀ c ∈ (requests.filterMap Prod.snd).map (candidate · o), c ∉ used) :
    serve o used requests = requests.map fun r => (r.1, r.2.map (candidate · o)) := by
  induction requests generalizing used with
  | nil => rfl
  | cons request requests ih =>
      obtain ⟨a, _ | element⟩ := request
      · exact congrArg ((a, none) :: ·) (ih hnodup hfree)
      · have hfirst : firstFree used (candidate element o) = candidate element o := by
          rw [firstFree, if_neg]
          simpa using hfree _ List.mem_cons_self
        obtain ⟨hnew, hrest⟩ := List.nodup_cons.mp hnodup
        have hbehind : serve o (candidate element o :: used) requests =
            requests.map fun r => (r.1, r.2.map (candidate · o)) := ih hrest (by
          intro c hc hused
          rcases List.mem_cons.mp hused with rfl | hused
          · exact hnew hc
          · exact hfree c (List.mem_cons_of_mem _ hc) hused)
        simp only [serve, hfirst, hbehind, List.map_cons, Option.map_some]

theorem toString_injective {m n : Nat} (h : toString m = toString n) : m = n :=
  suffixed_injective "" (congrArg (("" : String) ++ "-" ++ ·) h)

theorem hyphen_not_mem_digits (n : Nat) : '-' ∉ (toString n).toList := by
  intro h
  rw [Nat.toString_eq_repr, Nat.toList_repr] at h
  exact absurd (Nat.isDigit_of_mem_toDigits (by decide) (by decide) h) (by decide)

/-- What stands behind the last hyphen of a text is determined by the text. -/
theorem eq_of_append_hyphen {a b x y : List Char} (hx : '-' ∉ x) (hy : '-' ∉ y)
    (h : a ++ '-' :: x = b ++ '-' :: y) : x = y := by
  rcases List.append_eq_append_iff.mp h with ⟨z, -, hz⟩ | ⟨z, -, hz⟩
  · cases z with
    | nil => exact (List.cons.inj hz).2
    | cons c z =>
        refine absurd ?_ hx
        rw [(List.cons.inj hz).2]
        simp
  · cases z with
    | nil => exact (List.cons.inj hz).2.symm
    | cons c z =>
        refine absurd ?_ hy
        rw [(List.cons.inj hz).2]
        simp

/-- The id of a name and a path: behind the name, the numbers of the path with hyphens between. -/
def pathId (idPrefix name : String) (path : List Nat) : String :=
  idPrefix ++ name ++ "-" ++ "-".intercalate (path.map toString)

theorem join_hyphens (n : Nat) (path : List Nat) :
    String.join (((n :: path).map Int.ofNat).map fun k => "-" ++ toString k) =
      "-" ++ "-".intercalate ((n :: path).map toString) := by
  have hdigits (k : Nat) : toString (Int.ofNat k) = toString k := rfl
  induction path generalizing n with
  | nil =>
      rw [List.map_cons, List.map_nil, List.map_cons, List.map_nil, String.join_cons, String.join_nil,
        String.append_empty, hdigits]
      rfl
  | cons m path ih =>
      have hbehind : "-".intercalate ((n :: m :: path).map toString) =
          toString n ++ "-" ++ "-".intercalate ((m :: path).map toString) :=
        String.intercalate_cons_cons
      rw [List.map_cons, List.map_cons, String.join_cons, ih m, hbehind, hdigits]
      simp only [String.append_assoc]

/-- The candidate of a path is the id of the path. -/
theorem candidate_eq_pathId {o : Options} (hstrategy : o.strategy = .path) {element : Descriptor}
    {path : List Nat} (hne : path ≠ []) (hpath : element.path = path.map Int.ofNat) :
    candidate element o = pathId o.idPrefix element.name path := by
  obtain ⟨n, path, rfl⟩ := List.exists_cons_of_ne_nil hne
  simp only [candidate, hstrategy, pathCandidate, hpath, pathId, join_hyphens, String.append_assoc]

/-- Behind its last hyphen, the id of a path has the last number of the path. -/
theorem exists_pathId_append (idPrefix name : String) (path : List Nat) (n : Nat) :
    ∃ start, (pathId idPrefix name (path ++ [n])).toList = start ++ '-' :: (toString n).toList := by
  cases path with
  | nil => exact ⟨(idPrefix ++ name).toList, by simp [pathId]⟩
  | cons m path =>
      refine ⟨(pathId idPrefix name (m :: path)).toList, ?_⟩
      rw [pathId, List.map_append, String.intercalate_append_of_ne_nil (by simp) (by simp)]
      simp [pathId]

/-- Paths that end in different numbers make different ids. -/
theorem pathId_ne (idPrefix name name' : String) (path path' : List Nat) {m n : Nat} (hne : m ≠ n) :
    pathId idPrefix name (path ++ [m]) ≠ pathId idPrefix name' (path' ++ [n]) := by
  intro h
  obtain ⟨start, hstart⟩ := exists_pathId_append idPrefix name path m
  obtain ⟨start', hstart'⟩ := exists_pathId_append idPrefix name' path' n
  rw [h, hstart'] at hstart
  have hdigits := eq_of_append_hyphen (hyphen_not_mem_digits n) (hyphen_not_mem_digits m) hstart
  exact hne (toString_injective (String.toList_inj.mp hdigits)).symm

/-- The paths of two elements end in different numbers. -/
def EndApart (a b : Descriptor) : Prop :=
  ∃ (p q : List Nat) (m n : Nat), a.path = (p ++ [m]).map Int.ofNat ∧
    b.path = (q ++ [n]).map Int.ofNat ∧ m ≠ n

theorem EndApart.candidate_ne {o : Options} (hstrategy : o.strategy = .path) {a b : Descriptor}
    (h : EndApart a b) : candidate a o ≠ candidate b o := by
  obtain ⟨p, q, m, n, ha, hb, hne⟩ := h
  rw [candidate_eq_pathId hstrategy (by simp) ha, candidate_eq_pathId hstrategy (by simp) hb]
  exact pathId_ne _ _ _ _ _ hne

/-- Where the paths of those who ask end in different numbers, each gets its candidate, and none of
these has a number behind it. -/
theorem serve_of_endApart {o : Options} (hstrategy : o.strategy = .path)
    {requests : List (α × Option Descriptor)}
    (hapart : (requests.filterMap Prod.snd).Pairwise EndApart) :
    serve o [] requests = requests.map fun r => (r.1, r.2.map (candidate · o)) :=
  serve_of_nodup (List.pairwise_map.mpr (hapart.imp fun h => h.candidate_ne hstrategy))
    fun _ _ => List.not_mem_nil

end MarkupIds.Generator
