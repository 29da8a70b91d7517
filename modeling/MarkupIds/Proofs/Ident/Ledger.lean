import MarkupIds.Proofs.Ident.Uniqueness

/-! Ids handed out along a list: some of its members ask for one. What each member had and got is
kept in a ledger, in which no id stands twice. -/

namespace MarkupIds

namespace Generator

variable {α : Type}

/-- Ids for the members of a list that ask for one, in their order; `used` are handed out already. -/
def serve (o : Options) (used : List String) :
    List (α × Option Descriptor) → List (α × Option String)
  | [] => []
  | (a, none) :: rest => (a, none) :: serve o used rest
  | (a, some element) :: rest =>
    let id := firstFree used (candidate element o)
    (a, some id) :: serve o (id :: used) rest

/-- The members of a list that got an id, each with its id. -/
def provided (entries : List (α × Option String)) : List (α × String) :=
  entries.filterMap fun e => e.2.map (e.1, ·)

@[simp] theorem provided_cons_none (a : α) (entries : List (α × Option String)) :
    provided ((a, none) :: entries) = provided entries := rfl

@[simp] theorem provided_cons_some (a : α) (id : String) (entries : List (α × Option String)) :
    provided ((a, some id) :: entries) = (a, id) :: provided entries := rfl

/-- The number of those that ask for an id. -/
def asked (requests : List (α × Option Descriptor)) : Nat :=
  (requests.filter fun r => r.2.isSome).length

theorem asked_append (a b : List (α × Option Descriptor)) : asked (a ++ b) = asked a + asked b := by
  rw [asked, List.filter_append, List.length_append]
  rfl

theorem provided_append (a b : List (α × Option String)) :
    provided (a ++ b) = provided a ++ provided b := List.filterMap_append

theorem map_snd_provided (entries : List (α × Option String)) :
    (provided entries).map Prod.snd = entries.filterMap Prod.snd := by
  induction entries with
  | nil => rfl
  | cons entry entries ih =>
      obtain ⟨a, _ | id⟩ := entry
      · exact ih
      · exact congrArg (id :: ·) ih

theorem map_fst_provided_sublist (entries : List (α × Option String)) :
    ((provided entries).map Prod.fst).Sublist (entries.map Prod.fst) := by
  induction entries with
  | nil => exact .slnil
  | cons entry entries ih =>
      obtain ⟨a, _ | id⟩ := entry
      · exact ih.cons a
      · exact ih.cons_cons a

theorem mem_provided {entries : List (α × Option String)} {a : α} {id : String}
    (h : (a, some id) ∈ entries) : (a, id) ∈ provided entries :=
  List.mem_filterMap.mpr ⟨(a, some id), h, rfl⟩

theorem mem_of_mem_provided {entries : List (α × Option String)} {a : α} {id : String}
    (h : (a, id) ∈ provided entries) : (a, some id) ∈ entries := by
  obtain ⟨⟨b, given⟩, hmem, hgiven⟩ := List.mem_filterMap.mp h
  obtain ⟨id', rfl, hpair⟩ := Option.map_eq_some_iff.mp hgiven
  cases hpair
  exact hmem

theorem map_fst_serve (o : Options) (used : List String) (requests : List (α × Option Descriptor)) :
    (serve o used requests).map Prod.fst = requests.map Prod.fst := by
  induction requests generalizing used with
  | nil => rfl
  | cons request requests ih =>
      obtain ⟨a, _ | element⟩ := request <;> simp only [serve, List.map_cons, ih]

/-- Those that ask for an id get one. -/
theorem map_fst_provided_serve (o : Options) (used : List String) (requests : List (α × Option Descriptor)) :
    (provided (serve o used requests)).map Prod.fst = (requests.filter fun r => r.2.isSome).map Prod.fst := by
  induction requests generalizing used with
  | nil => rfl
  | cons request requests ih =>
      obtain ⟨a, _ | element⟩ := request
      · exact ih used
      · exact congrArg (a :: ·) (ih _)

/-- The ids handed out depend only on the candidates. -/
theorem map_snd_serve_of_candidates {β : Type} (o : Options) (used : List String)
    {requests : List (α × Option Descriptor)} {requests' : List (β × Option Descriptor)}
    (h : requests.map (fun r => r.2.map (candidate · o)) = requests'.map fun r => r.2.map (candidate · o)) :
    (serve o used requests).map Prod.snd = (serve o used requests').map Prod.snd := by
  induction requests generalizing used requests' with
  | nil =>
      obtain rfl := List.map_eq_nil_iff.mp h.symm
      rfl
  | cons r requests ih =>
      cases requests' with
      | nil => cases h
      | cons r' requests' =>
          obtain ⟨hfirst, hrest⟩ := List.cons.inj h
          obtain ⟨a, asked⟩ := r
          obtain ⟨b, asked'⟩ := r'
          cases asked with
          | none =>
              obtain rfl := Option.map_eq_none_iff.mp hfirst.symm
              exact congrArg (none :: ·) (ih used hrest)
          | some element =>
              obtain ⟨element', rfl, hsame⟩ := Option.map_eq_some_iff.mp hfirst.symm
              simp only [serve, List.map_cons, hsame, ih _ hrest]

/-- The ids handed out depend only on what is asked for. -/
theorem map_snd_serve_congr {β : Type} (o : Options) (used : List String)
    {requests : List (α × Option Descriptor)} {requests' : List (β × Option Descriptor)}
    (h : requests.map Prod.snd = requests'.map Prod.snd) :
    (serve o used requests).map Prod.snd = (serve o used requests').map Prod.snd := by
  have hcandidates := congrArg (List.map (Option.map (candidate · o))) h
  rw [List.map_map, List.map_map] at hcandidates
  exact map_snd_serve_of_candidates o used hcandidates

/-- Whoever gets no id has asked for none. -/
theorem none_mem_of_mem_serve {o : Options} {used : List String} {requests : List (α × Option Descriptor)} {a : α}
    (h : (a, none) ∈ serve o used requests) : (a, none) ∈ requests := by
  induction requests generalizing used with
  | nil => cases h
  | cons request requests ih =>
      obtain ⟨b, _ | element⟩ := request
      · obtain h | h := List.mem_cons.mp h
        · cases h
          exact List.mem_cons_self
        · exact List.mem_cons_of_mem _ (ih h)
      · obtain h | h := List.mem_cons.mp h
        · cases h
        · exact List.mem_cons_of_mem _ (ih h)

/-- Whoever gets an id has asked for one, and it is the first free variant of the candidate. -/
theorem of_mem_serve {o : Options} {used : List String}
    {requests : List (α × Option Descriptor)} {a : α} {id : String} (h : (a, some id) ∈ serve o used requests) :
    ∃ element, (a, some element) ∈ requests ∧ ∃ taken, id = firstFree taken (candidate element o) := by
  induction requests generalizing used with
  | nil => cases h
  | cons request requests ih =>
      obtain ⟨b, _ | element⟩ := request
      · obtain h | h := List.mem_cons.mp h
        · cases h
        · obtain ⟨element, helement, hid⟩ := ih h
          exact ⟨element, List.mem_cons_of_mem _ helement, hid⟩
      · obtain h | h := List.mem_cons.mp h
        · cases h
          exact ⟨element, List.mem_cons_self, used, rfl⟩
        · obtain ⟨element', helement, hid⟩ := ih h
          exact ⟨element', List.mem_cons_of_mem _ helement, hid⟩

theorem length_provided_serve (o : Options) (used : List String)
    (requests : List (α × Option Descriptor)) :
    (provided (serve o used requests)).length = asked requests := by
  induction requests generalizing used with
  | nil => rfl
  | cons request requests ih =>
      obtain ⟨a, _ | element⟩ := request
      · exact ih used
      · exact congrArg (· + 1) (ih _)

/-- The ids handed out along a list are those of a run of calls for the members that ask. -/
theorem provided_serve (o : Options) (g : Generator) (requests : List (α × Option Descriptor)) :
    (provided (serve o g.used requests)).map Prod.snd =
      (g.run (requests.filterMap fun r => r.2.map (Call.element · o))).1 := by
  induction requests generalizing g with
  | nil => rfl
  | cons request requests ih =>
      obtain ⟨a, _ | element⟩ := request
      · exact ih g
      · have hcalls : ((a, some element) :: requests).filterMap
            (fun r => r.2.map (Call.element · o)) = Call.element element o ::
              requests.filterMap fun r => r.2.map (Call.element · o) := rfl
        rw [hcalls, run_cons]
        exact congrArg (_ :: ·) (ih (g.generate element o).2)

theorem nodup_provided_serve (o : Options) (requests : List (α × Option Descriptor)) :
    ((provided (serve o [] requests)).map Prod.snd).Nodup := by
  rw [provided_serve o {} requests]
  exact nodup_run _

/-- The candidate of an element starts with the text that the options put in front. -/
theorem prefixed_candidate (element : Descriptor) (o : Options) :
    o.idPrefix.toList <+: (candidate element o).toList := by
  have hash (name : String) (path : List Int) :
      o.idPrefix.toList <+: (hashCandidate name path o.idPrefix).toList := by
    rw [hashCandidate, String.toList_append]
    exact List.prefix_append _ _
  unfold candidate
  split
  · unfold slugCandidate
    split
    · exact hash _ _
    · rw [String.toList_append]
      exact List.prefix_append _ _
  · rw [pathCandidate, String.toList_append, String.toList_append, List.append_assoc]
    exact List.prefix_append _ _
  · exact hash _ _

/-- So does the first free variant of a candidate. -/
theorem prefixed_firstFree {start : List Char} {candidate : String} (used : List String)
    (h : start <+: candidate.toList) : start <+: (firstFree used candidate).toList := by
  obtain ⟨-, hid⟩ | ⟨-, k, -, -, hid⟩ := firstFree_spec used candidate
  · rw [hid]
    exact h
  · rw [hid, suffixed, String.toList_append, String.toList_append, List.append_assoc]
    exact h.trans (List.prefix_append _ _)

theorem prefixed_of_mem_provided_serve {o : Options} {used : List String}
    {requests : List (α × Option Descriptor)} {id : String}
    (h : id ∈ (provided (serve o used requests)).map Prod.snd) : o.idPrefix.toList <+: id.toList := by
  induction requests generalizing used with
  | nil => cases h
  | cons request requests ih =>
      obtain ⟨a, _ | element⟩ := request
      · exact ih h
      · obtain h | h := List.mem_cons.mp h
        · rw [h]
          exact prefixed_firstFree used (prefixed_candidate element o)
        · exact ih h

theorem serve_append (o : Options) (used : List String) (a b : List (α × Option Descriptor)) :
    serve o used (a ++ b) = serve o used a ++
      serve o (((provided (serve o used a)).map Prod.snd).reverse ++ used) b := by
  induction a generalizing used with
  | nil => rfl
  | cons request a ih =>
      obtain ⟨x, _ | element⟩ := request
      · simp only [List.cons_append, serve, ih, provided_cons_none]
      · simp only [List.cons_append, serve, ih, provided_cons_some, List.map_cons, List.reverse_cons,
          List.append_assoc, List.nil_append]

end Generator

/-- What a run makes of one element: the value of the attribute that it has, and the id that it is given. -/
structure Entry where
  existing : Option (List Char)
  given : Option String

namespace Entry

/-- The ids given to the elements of a ledger. -/
def givenIds (ledger : List Entry) : List String := ledger.filterMap (·.given)

/-- The values that elements of a ledger keep. -/
def keptValues (ledger : List Entry) : List (List Char) :=
  ledger.filterMap fun e => if e.given.isSome then none else e.existing

/-- The value that an element ends up with, where `written` is the form in which ids are compared
with values. -/
def value (written : List Char → List Char) (e : Entry) : Option (List Char) :=
  match e.given with
  | some id => some (written id.toList)
  | none => e.existing

/-- The values that the elements of a ledger end up with. -/
def values (written : List Char → List Char) (ledger : List Entry) : List (List Char) :=
  ledger.filterMap (value written)

theorem values_perm (written : List Char → List Char) (ledger : List Entry) :
    (values written ledger).Perm
      (keptValues ledger ++ (givenIds ledger).map fun id => written id.toList) := by
  induction ledger with
  | nil => exact .nil
  | cons e ledger ih =>
      simp only [values, keptValues, givenIds] at ih ⊢
      obtain ⟨existing, _ | id⟩ := e
      · cases existing with
        | none => simpa [List.filterMap_cons, value] using ih
        | some v => simpa [List.filterMap_cons, value] using ih
      · simpa [List.filterMap_cons, value] using (List.Perm.cons _ ih).trans List.perm_middle.symm

/-- Among the values at the end none comes twice exactly where none of the kept values does, and no
kept value is an id that was given. -/
theorem nodup_values_iff {written : List Char → List Char} (hinj : Function.Injective written)
    {ledger : List Entry} (hgiven : (givenIds ledger).Nodup) :
    (values written ledger).Nodup ↔
      (keptValues ledger).Nodup ∧
        ∀ v ∈ keptValues ledger, ∀ id ∈ givenIds ledger, v ≠ written id.toList := by
  have hwritten : ((givenIds ledger).map fun id => written id.toList).Nodup :=
    hgiven.map (hinj.comp fun a b h => String.toList_inj.mp h)
  rw [(values_perm written ledger).nodup_iff, List.nodup_append]
  constructor
  · rintro ⟨hkept, _, hdisjoint⟩
    exact ⟨hkept, fun v hv id hid => hdisjoint v hv _ (List.mem_map_of_mem hid)⟩
  · rintro ⟨hkept, hdisjoint⟩
    refine ⟨hkept, hwritten, ?_⟩
    intro v hv w hw
    obtain ⟨id, hid, rfl⟩ := List.mem_map.mp hw
    exact hdisjoint v hv id hid

/-- A ledger tells what becomes of the values that the elements of a text had: some are kept, in their order, and ids are
put in. -/
structure Settles (written : List Char → List Char) (had has : List (List Char)) (ledger : List Entry) : Prop where
  had : (ledger.filterMap (·.existing)).Sublist had
  has : has = values written ledger

namespace Settles

variable {written : List Char → List Char} {had has had' has' : List (List Char)} {ledger ledger' : List Entry}

/-- What is kept was there. -/
theorem keptValues_sublist (h : Settles written had has ledger) : (keptValues ledger).Sublist had := by
  refine List.Sublist.trans ?_ h.had
  rw [keptValues]
  clear h
  induction ledger with
  | nil => exact .slnil
  | cons e ledger ih =>
      obtain ⟨_ | v, _ | id⟩ := e
      · exact ih
      · exact ih
      · exact ih.cons_cons v
      · exact ih.cons v

theorem append (h : Settles written had has ledger) (h' : Settles written had' has' ledger') :
    Settles written (had ++ had') (has ++ has') (ledger ++ ledger') where
  had := by
    rw [List.filterMap_append]
    exact h.had.append h'.had
  has := by
    rw [h.has, h'.has]
    exact List.filterMap_append.symm

/-- An element without a new id keeps the value that it has. -/
theorem kept (written : List Char → List Char) (existing : Option (List Char)) :
    Settles written existing.toList existing.toList [⟨existing, none⟩] := by
  cases existing with
  | none => exact ⟨.slnil, rfl⟩
  | some v => exact ⟨.refl _, rfl⟩

/-- An element with a new id has that for its value. -/
theorem given (written : List Char → List Char) (existing : Option (List Char)) (id : String) :
    Settles written existing.toList [written id.toList] [⟨existing, some id⟩] := by
  cases existing with
  | none => exact ⟨.slnil, rfl⟩
  | some v => exact ⟨.refl _, rfl⟩

/-- Values that stay where other values go. -/
theorem stay {values : List (List Char)} (h : values.Sublist had) :
    Settles written had values (values.map fun v => ⟨some v, none⟩) where
  had := by
    rw [List.filterMap_map]
    exact List.filterMap_some.symm ▸ h
  has := by
    rw [Entry.values, List.filterMap_map]
    exact List.filterMap_some.symm

end Settles

end Entry

end MarkupIds
