import Mathlib.Data.List.Flatten
import MarkupIds.Proofs.Jsx.Asked
import MarkupIds.Proofs.Jsx.Pieces

/-! Readers that take start tags as they are written. A reader is known by the programs that it reads in this way: they
stay such when an attribute is cut out of a start tag, or the one for an id is put in behind the others. Then a program
with ids is one of them, and another run finds the same start tags: either they have their ids, or they are given the
same ones. -/

namespace MarkupIds.Jsx

open Piece

section Told

variable {o : Options}

/-- The first value of the attribute that a start tag gives as a string. -/
def WrittenTag.existing? (w : WrittenTag) (attr : List Char) : Option (List Char) :=
  findAttribute (w.parts.filterMap fun p => p.name?.bind fun n => p.literal?.map fun v => (n, v)) attr

theorem existing?_tag (w : WrittenTag) (attr : List Char) (offset : Nat) :
    (w.tag offset).existing? attr = w.existing? attr := by
  have hpairs (parts : List WrittenPart) (i : Nat) : ((WrittenPart.attributes i parts).filterMap fun a =>
      a.name.bind fun n => a.literal.map fun v => (n, v)) =
        parts.filterMap fun p => p.name?.bind fun n => p.literal?.map fun v => (n, v) := by
    induction parts generalizing i with
    | nil => rfl
    | cons p parts ih =>
        rw [WrittenPart.attributes, List.filterMap_cons, List.filterMap_cons, ih]
        rfl
  exact congrArg (findAttribute · attr) (hpairs w.parts _)

theorem isAccepted_tag (o : Options) (w : WrittenTag) (i j : Nat) :
    (w.tag i).isAccepted o = (w.tag j).isAccepted o := by
  rw [Tag.isAccepted, Tag.isAccepted, existing?_tag, existing?_tag]
  rfl

/-- A start tag that gets an id has it for its value, unless it had one that stays. -/
theorem existing?_withId (id : String) {w : WrittenTag} (h : o.overwrite = true ∨ w.existing? o.attr = none) :
    (w.withId o id).existing? o.attr = some (escapeValue id.toList) := by
  have hkept : findAttribute ((w.kept o).filterMap fun p => p.name?.bind fun n => p.literal?.map fun v => (n, v))
      o.attr = none := by
    rw [findAttribute, Option.map_eq_none_iff, List.find?_eq_none]
    rintro ⟨n, v⟩ hpair
    obtain ⟨p, hp, hvalue⟩ := List.mem_filterMap.mp hpair
    obtain ⟨n', hname, hliteral⟩ := Option.bind_eq_some_iff.mp hvalue
    obtain ⟨v', -, heq⟩ := Option.map_eq_some_iff.mp hliteral
    obtain ⟨rfl, rfl⟩ := Prod.mk.inj heq
    obtain ⟨hmem, hstays⟩ := List.mem_filter.mp hp
    rintro hn
    obtain rfl : n' = o.attr := beq_iff_eq.mp hn
    rcases h with hoverwrite | hnone
    · rw [WrittenPart.yields, hoverwrite, hname] at hstays
      simp at hstays
    · rw [WrittenTag.existing?, findAttribute, Option.map_eq_none_iff, List.find?_eq_none] at hnone
      exact hnone (o.attr, v') (List.mem_filterMap.mpr ⟨p, hmem, hvalue⟩) hn
  rw [WrittenTag.existing?, WrittenTag.withId, List.filterMap_append, findAttribute, List.find?_append]
  rw [findAttribute, Option.map_eq_none_iff] at hkept
  rw [hkept]
  simp [WrittenPart.given, WrittenPart.name?, WrittenPart.literal?]

theorem isSome_existing?_withId (id : String) (w : WrittenTag) (offset : Nat) :
    (((w.withId o id).tag offset).existing? o.attr).isSome := by
  rw [existing?_tag, WrittenTag.existing?, findAttribute, Option.isSome_map, List.find?_isSome]
  refine ⟨(o.attr, escapeValue id.toList), ?_, beq_self_eq_true _⟩
  simp [WrittenTag.withId, WrittenPart.given, WrittenPart.name?, WrittenPart.literal?]

/-- Where ids are overwritten, what a start tag says besides does not matter. -/
theorem isAccepted_withId (h : o.overwrite = true) (id : String) (w : WrittenTag) (i j : Nat) :
    ((w.withId o id).tag i).isAccepted o = (w.tag j).isAccepted o := by
  simp only [Tag.isAccepted, Options.admits, h, Bool.or_true]
  rfl

end Told

section WithIds

variable {o : Options} {pieces : List Piece}

theorem withId_withId (h : o.overwrite = true) (id : String) (w : WrittenTag) :
    (w.withId o id).withId o id = w.withId o id := by
  have hnew : (WrittenPart.given o.attr (escapeValue id.toList)).yields o = true := by
    rw [WrittenPart.yields, h, Bool.true_and]
    exact beq_self_eq_true _
  have hkept : (w.withId o id).kept o = w.kept o := by
    simp [WrittenTag.kept, WrittenTag.withId, List.filter_append, hnew]
  rw [WrittenTag.withId, hkept]
  rfl

theorem withIds_withIds (h : o.overwrite = true) (pieces : List Piece) (ids : List (Option String)) :
    withIds o (withIds o pieces ids) ids = withIds o pieces ids := by
  fun_induction withIds o pieces ids with
  | case1 ids => rfl
  | case2 c pieces ids ih => rw [withIds, ih]
  | case3 w pieces => rfl
  | case4 w pieces id ids ih =>
      rw [withIds, ih]
      cases id with
      | none => rfl
      | some id => exact congrArg (fun w => Piece.tag w :: _) (withId_withId h id w)

theorem withIds_of_none (o : Options) (pieces : List Piece) {ids : List (Option String)} (h : ∀ id ∈ ids, id = none) :
    withIds o pieces ids = pieces := by
  fun_induction withIds o pieces ids with
  | case1 ids => rfl
  | case2 c pieces ids ih => rw [ih h]
  | case3 w pieces => rfl
  | case4 w pieces id ids ih =>
      obtain ⟨rfl, hids⟩ := List.forall_mem_cons.mp h
      rw [ih hids]
      rfl

variable {entries : List (Tag × Option String)}

/-- Where values stay, no start tag of a program with ids is accepted again. -/
theorem not_isAccepted_withIds (h : o.overwrite = false) {offset : Nat}
    (hplaced : entries.map Prod.fst = placed offset pieces)
    (hentries : ∀ e ∈ entries, e.2 = none → e.1.isAccepted o = false) (i : Nat) :
    ∀ t ∈ placed i (withIds o pieces (entries.map Prod.snd)), t.isAccepted o = false := by
  intro t ht
  induction pieces generalizing offset entries i with
  | nil => cases ht
  | cons piece pieces ih =>
      cases piece with
      | char c => exact ih hplaced hentries _ ht
      | tag w =>
          cases entries with
          | nil => cases hplaced
          | cons entry entries =>
              obtain ⟨u, given⟩ := entry
              obtain ⟨rfl, hothers⟩ := List.cons.inj hplaced
              obtain ⟨hentry, hentries⟩ := List.forall_mem_cons.mp hentries
              rcases List.mem_cons.mp ht with rfl | ht
              · cases given with
                | none => exact (isAccepted_tag o w _ _).trans (hentry rfl)
                | some id =>
                    have hvalue := isSome_existing?_withId (o := o) id w i
                    simp [Tag.isAccepted, Options.admits, h, Option.isNone_eq_false_iff.mpr hvalue]
              · exact ih hothers hentries _ ht

theorem asks_tag (o : Options) (w : WrittenTag) (i j : Nat) : (w.tag i).asks o = (w.tag j).asks o :=
  congrArg (w.name, ·) (isAccepted_tag o w i j)

theorem map_asks_placed (o : Options) (pieces : List Piece) (i j : Nat) :
    (placed i pieces).map (Tag.asks o) = (placed j pieces).map (Tag.asks o) := by
  induction pieces generalizing i j with
  | nil => rfl
  | cons piece pieces ih =>
      cases piece with
      | char c => exact ih _ _
      | tag w => exact congrArg₂ List.cons (asks_tag o w i j) (ih _ _)

/-- Where ids are overwritten, start tags with ids ask the generator as before. -/
theorem map_asks_withIds (h : o.overwrite = true) (pieces : List Piece) (ids : List (Option String)) (i j : Nat) :
    (placed i (withIds o pieces ids)).map (Tag.asks o) = (placed j pieces).map (Tag.asks o) := by
  fun_induction withIds o pieces ids generalizing i j with
  | case1 ids => rfl
  | case2 c pieces ids ih => exact ih _ _
  | case3 w pieces => exact map_asks_placed o (.tag w :: pieces) i j
  | case4 w pieces id ids ih =>
      refine congrArg₂ List.cons ?_ (ih _ _)
      cases id with
      | none => exact asks_tag o w i j
      | some id => exact congrArg (w.name, ·) (isAccepted_withId h id w i j)

end WithIds

/-- `programs` are read as they are written, each as nodes that are told but for what their start tags say. They stay so
when an attribute that gives way is cut out of a start tag, with what stands before it, or an attribute for an id is put
in behind all others. -/
structure Conforms (read : Reader) (o : Options) (programs : List Piece → List Node → Prop) : Prop where
  reads : ∀ {pieces nodes}, programs pieces nodes → ∃ trees, read (textOf pieces) = .ok trees ∧
    Regular (textOf pieces) trees ∧ Node.tags (nodesOf trees) = placed 0 pieces ∧ Node.allBare (nodesOf trees) = nodes
  shown : ∀ {pieces nodes}, programs pieces nodes → ∀ w, .tag w ∈ pieces → ∀ p ∈ w.parts, p.text ≠ []
  cut : ∀ {front behind name before p others nodes},
    programs (front ++ .tag ⟨name, before ++ p :: others⟩ :: behind) nodes → p.yields o →
      programs (front ++ .tag ⟨name, before ++ others⟩ :: behind) nodes
  put : ∀ {front behind name parts nodes} (id : String), programs (front ++ .tag ⟨name, parts⟩ :: behind) nodes →
    programs (front ++ .tag ⟨name, parts ++ [.given o.attr (escapeValue id.toList)]⟩ :: behind) nodes

namespace Conforms

variable {read : Reader} {o : Options} {programs : List Piece → List Node → Prop} (h : Conforms read o programs)
  {pieces : List Piece} {nodes : List Node}

include h

theorem cut_all {front behind : List Piece} {name : List Char} (before others : List WrittenPart)
    (hpieces : programs (front ++ .tag ⟨name, before ++ others⟩ :: behind) nodes) :
    programs (front ++ .tag ⟨name, before ++ others.filter fun p => !p.yields o⟩ :: behind) nodes := by
  induction others generalizing before with
  | nil => exact hpieces
  | cons p others ih =>
      cases hyields : p.yields o with
      | true =>
          rw [List.filter_cons_of_neg (by simp [hyields])]
          exact ih before (h.cut hpieces hyields)
      | false =>
          have hthere := ih (before ++ [p]) (by rwa [List.append_assoc])
          rw [List.append_assoc] at hthere
          rwa [List.filter_cons_of_pos (by simp [hyields])]

theorem withIds (hpieces : programs pieces nodes) (ids : List (Option String)) : programs (withIds o pieces ids) nodes := by
  suffices hfront : ∀ front, programs (front ++ pieces) nodes → programs (front ++ Piece.withIds o pieces ids) nodes from
    hfront [] hpieces
  intro front hfront
  clear hpieces
  fun_induction Piece.withIds o pieces ids generalizing front with
  | case1 ids => exact hfront
  | case2 c pieces ids ih =>
      have hthere := ih (front ++ [.char c]) (by rwa [List.append_assoc])
      rwa [List.append_assoc] at hthere
  | case3 w pieces => exact hfront
  | case4 w pieces id ids ih =>
      have hthere := ih (front ++ [.tag (id.elim w (w.withId o))]) (by
        rw [List.append_assoc]
        cases id with
        | none => exact hfront
        | some id => exact h.put id (h.cut_all [] w.parts hfront))
      rwa [List.append_assoc] at hthere

theorem assigned (hpieces : programs pieces nodes) :
    ∃ trees, read (textOf pieces) = .ok trees ∧ Node.allBare (nodesOf trees) = nodes ∧
      Node.tags (nodesOf trees) = placed 0 pieces ∧ (assign (textOf pieces) o read).result =
        .ok (textOf (Piece.withIds o pieces ((served o (nodesOf trees)).map Prod.snd))) := by
  obtain ⟨trees, hread, hregular, hplaced, hbare⟩ := h.reads hpieces
  have hentries := (map_fst_served o (nodesOf trees)).trans hplaced
  obtain ⟨out, hsplice, hrewritten⟩ := (hregular.laid o).rewritten o
  have hout : out = textOf (Piece.withIds o pieces ((served o (nodesOf trees)).map Prod.snd)) := by
    rw [hrewritten.text, Text.weave, Text.weaveFrom_eq_strandFrom,
      (unchanged_before hentries (Nat.le_refl 0)).2, List.nil_append]
    exact strandFrom_withIds o (h.shown hpieces) hentries
  refine ⟨trees, hread, hbare, hplaced, ?_⟩
  rw [← hout]
  exact result_assign hread hsplice

/-- Such a program can be read again once it has its ids, and then gets no others. -/
theorem stable (hpieces : programs pieces nodes) :
    ∃ ids, (assign (textOf pieces) o read).result = .ok (textOf (Piece.withIds o pieces ids)) ∧
      programs (Piece.withIds o pieces ids) nodes ∧
      (assign (textOf (Piece.withIds o pieces ids)) o read).result = .ok (textOf (Piece.withIds o pieces ids)) := by
  obtain ⟨trees, hread, hbare, hplaced, hresult⟩ := h.assigned hpieces
  have hout := h.withIds hpieces ((served o (nodesOf trees)).map Prod.snd)
  obtain ⟨trees', hread', hbare', hplaced', hresult'⟩ := h.assigned hout
  refine ⟨_, hresult, hout, ?_⟩
  rw [hresult']
  congr 2
  cases hoverwrite : o.overwrite with
  | true =>
      have hasks : (Node.tags (nodesOf trees')).map (Tag.asks o) = (Node.tags (nodesOf trees)).map (Tag.asks o) := by
        rw [hplaced, hplaced', map_asks_withIds hoverwrite pieces _ 0 0]
      have hids : (served o (nodesOf trees')).map Prod.snd = (served o (nodesOf trees)).map Prod.snd :=
        Generator.map_snd_serve_congr o [] (requests_congr (hbare'.trans hbare.symm) hasks [] 0)
      rw [hids, withIds_withIds hoverwrite]
  | false =>
      refine withIds_of_none o _ fun id hid => ?_
      obtain ⟨⟨t, given⟩, hmem, rfl⟩ := List.mem_map.mp hid
      cases given with
      | none => rfl
      | some id =>
          obtain ⟨ht, haccepted⟩ := accepted_of_mem_served hmem
          rw [hplaced'] at ht
          have hentries := (map_fst_served o (nodesOf trees)).trans hplaced
          have hrefused := not_isAccepted_withIds hoverwrite hentries (fun e => not_isAccepted_of_mem_served) 0 t ht
          exact absurd haccepted (Bool.eq_false_iff.mp hrefused)

end Conforms

section Values

variable {o : Options} {inside : WrittenPart → List (List Char)}

/-- The values of the attribute in a piece, where `inside` tells those of elements that stand inside parts of start
tags. -/
def Piece.values (o : Options) (inside : WrittenPart → List (List Char)) : Piece → List (List Char)
  | .char _ => []
  | .tag w => (w.existing? o.attr).toList ++ w.parts.flatMap inside

/-- Programs of which each tells the values of the attribute over all its elements. -/
structure Tells (read : Reader) (o : Options) (inside : WrittenPart → List (List Char))
    (programs : List Piece → List Node → Prop) : Prop extends Conforms read o programs where
  values : ∀ {pieces nodes trees}, programs pieces nodes → read (textOf pieces) = .ok trees →
    (elementTags trees).filterMap (·.existing? o.attr) = pieces.flatMap (Piece.values o inside)
  given : ∀ id : String, inside (.given o.attr (escapeValue id.toList)) = []

/-- A start tag ends up with its id, or else with the value that it had; the values inside the parts that stay are kept. -/
theorem exists_settles_tag (hinside : ∀ id : String, inside (.given o.attr (escapeValue id.toList)) = [])
    {w : WrittenTag} {given : Option String} (h : given.isSome → o.overwrite = true ∨ w.existing? o.attr = none) :
    ∃ ledger, Entry.Settles escapeValue ((Piece.tag w).values o inside)
      ((Piece.tag (given.elim w (w.withId o))).values o inside) ledger ∧ Entry.givenIds ledger = given.toList := by
  have hnone (vs : List (List Char)) : Entry.givenIds (vs.map fun v => ⟨some v, none⟩) = [] := by
    rw [Entry.givenIds, List.filterMap_map]
    exact List.filterMap_eq_nil_iff.mpr fun _ _ => rfl
  cases given with
  | none =>
      refine ⟨_, (Entry.Settles.kept escapeValue (w.existing? o.attr)).append (.stay (.refl _)), ?_⟩
      exact hnone _
  | some id =>
      have hothers : (w.withId o id).parts.flatMap inside = (w.kept o).flatMap inside := by
        rw [WrittenTag.withId, List.flatMap_append, List.flatMap_singleton, hinside, List.append_nil]
      have hvalues : (Piece.tag (w.withId o id)).values o inside =
          [escapeValue id.toList] ++ (w.kept o).flatMap inside := by
        rw [Piece.values, existing?_withId id (h rfl), hothers]
        rfl
      rw [Option.elim_some, hvalues]
      exact ⟨_, (Entry.Settles.given escapeValue (w.existing? o.attr) id).append
        (.stay (List.filter_sublist.flatMap inside)), congrArg (id :: ·) (hnone _)⟩

theorem exists_settles_withIds (hinside : ∀ id : String, inside (.given o.attr (escapeValue id.toList)) = [])
    {pieces : List Piece} {entries : List (Tag × Option String)} {offset : Nat}
    (hplaced : entries.map Prod.fst = placed offset pieces)
    (hadmitted : ∀ t id, (t, some id) ∈ entries → o.overwrite = true ∨ t.existing? o.attr = none) :
    ∃ ledger, Entry.Settles escapeValue (pieces.flatMap (Piece.values o inside))
      ((withIds o pieces (entries.map Prod.snd)).flatMap (Piece.values o inside)) ledger ∧
        Entry.givenIds ledger = (Generator.provided entries).map Prod.snd := by
  induction pieces generalizing offset entries with
  | nil =>
      obtain rfl := List.map_eq_nil_iff.mp hplaced
      exact ⟨[], ⟨.slnil, rfl⟩, rfl⟩
  | cons piece pieces ih =>
      cases piece with
      | char c => exact ih hplaced hadmitted
      | tag w =>
          cases entries with
          | nil => cases hplaced
          | cons entry entries =>
              obtain ⟨t, given⟩ := entry
              obtain ⟨rfl, hothers⟩ := List.cons.inj hplaced
              obtain ⟨ledger, hledger, hids⟩ := ih hothers fun t id hmem => hadmitted t id (List.mem_cons_of_mem _ hmem)
              have hown : given.isSome → o.overwrite = true ∨ w.existing? o.attr = none := by
                intro hsome
                obtain ⟨id, rfl⟩ := Option.isSome_iff_exists.mp hsome
                rw [← existing?_tag w o.attr offset]
                exact hadmitted _ id List.mem_cons_self
              obtain ⟨first, hfirst, hid⟩ := exists_settles_tag hinside hown
              refine ⟨first ++ ledger, hfirst.append hledger, ?_⟩
              rw [Entry.givenIds, List.filterMap_append]
              refine (congrArg₂ (· ++ ·) hid hids).trans ?_
              cases given <;> rfl

variable {read : Reader} {programs : List Piece → List Node → Prop} {pieces : List Piece} {nodes : List Node}

/-- A program whose values are told has, when it got its ids, those that it keeps and the ids. -/
theorem Tells.settles (h : Tells read o inside programs) (hpieces : programs pieces nodes) {trees : List (Grammar.Tree Kind)}
    (hread : read (textOf pieces) = .ok trees) : ∃ out trees' ledger, (assign (textOf pieces) o read).result = .ok out ∧
      read out = .ok trees' ∧ Entry.givenIds ledger = (Generator.provided (served o (nodesOf trees))).map Prod.snd ∧
      Entry.Settles escapeValue ((elementTags trees).filterMap (·.existing? o.attr))
        ((elementTags trees').filterMap (·.existing? o.attr)) ledger := by
  obtain ⟨trees₀, hread₀, -, hplaced, hresult⟩ := h.assigned hpieces
  obtain rfl : trees₀ = trees := Except.ok.inj (hread₀.symm.trans hread)
  have hout := h.withIds hpieces ((served o (nodesOf trees₀)).map Prod.snd)
  obtain ⟨trees', hread', -, -, -⟩ := h.reads hout
  have hentries := (map_fst_served o (nodesOf trees₀)).trans hplaced
  obtain ⟨ledger, hledger, hids⟩ := exists_settles_withIds (o := o) h.given hentries fun t id hmem => by
    exact Options.overwrite_or_eq_none_of_admits (Bool.and_eq_true_iff.mp (accepted_of_mem_served hmem).2).2
  rw [← h.values hpieces hread, ← h.values hout hread'] at hledger
  exact ⟨_, trees', ledger, hresult, hread', hids, hledger⟩

end Values

end MarkupIds.Jsx
