import MarkupIds.Proofs.Jsx.Conforming
import MarkupIds.Proofs.Jsx.Written

/-! The grammar takes start tags as they are written. Programs that it reads along an outline can be read again when an
attribute is cut out or put in, for an outline does not tell what start tags say. -/

namespace MarkupIds.Jsx

open Grammar (Pattern Reached)
open Piece

section Headed

def IsInner : Grammar.Tree Kind → Prop
  | .branch .opening _ _ _ => False
  | _ => True

/-- A pattern that finds start tags only inside of other trees. -/
def findsInner : Part → Bool
  | .seq a b => findsInner a && findsInner b
  | .alt a b => findsInner a && findsInner b
  | .many a => findsInner a
  | .branch kind _ => kind != .opening
  | _ => true

theorem findsInner_grammar (r : Rule) : findsInner (grammar r) = true := by
  cases r <;> rfl

theorem finds_inner (source : List Char) : Grammar.Finds grammar source (findsInner · = true) IsInner where
  seq := Bool.and_eq_true_iff.mp
  alt := Bool.and_eq_true_iff.mp
  many := fun h => h
  rule := fun _ => findsInner_grammar _
  leaf := fun _ _ _ _ => trivial
  branch := by
    intro kind a h fuel s t _ _ _ _
    cases kind <;> trivial

/-- A pattern whose elements start with their start tags, and which finds no others outside of these. -/
def findsHeaded : Part → Bool
  | .seq a b => findsHeaded a && findsHeaded b
  | .alt a b => findsHeaded a && findsHeaded b
  | .many a => findsHeaded a
  | .branch .element (.seq (.branch .opening _) b) => findsInner b && findsHeaded b
  | .branch .element _ => false
  | .branch .opening _ => true
  | .branch _ a => findsInner a && findsHeaded a
  | _ => true

theorem findsHeaded_grammar (r : Rule) : findsHeaded (grammar r) = true := by
  cases r <;> rfl

mutual

/-- Elements in the tree, outside of start tags, start with their start tags, and no other start tags stand there. -/
def Headed : Grammar.Tree Kind → Prop
  | .leaf .. => True
  | .branch .element _ _ parts =>
    (∃ start stop inside rest, parts = .branch .opening start stop inside :: rest ∧ ∀ tree ∈ rest, IsInner tree) ∧
      AllHeaded parts
  | .branch .opening _ _ _ => True
  | .branch _ _ _ parts => (∀ tree ∈ parts, IsInner tree) ∧ AllHeaded parts

def AllHeaded : List (Grammar.Tree Kind) → Prop
  | [] => True
  | tree :: rest => Headed tree ∧ AllHeaded rest

end

theorem allHeaded_iff {trees : List (Grammar.Tree Kind)} : AllHeaded trees ↔ ∀ tree ∈ trees, Headed tree := by
  induction trees with
  | nil => exact ⟨fun _ _ h => absurd h List.not_mem_nil, fun _ => trivial⟩
  | cons tree rest ih => rw [AllHeaded, ih, List.forall_mem_cons]

theorem exists_of_findsHeaded {a : Part} (h : findsHeaded (.branch .element a) = true) :
    ∃ c b, a = .seq (.branch .opening c) b ∧ findsInner b = true ∧ findsHeaded b = true := by
  match a, h with
  | .seq (.branch .opening c) b, h =>
    obtain ⟨hinner, hheaded⟩ := Bool.and_eq_true_iff.mp h
    exact ⟨c, b, rfl, hinner, hheaded⟩

/-- What is found by a pattern that begins with a start tag begins with that. -/
theorem exists_opening_of_match? {source : List Char} {a b : Part} {fuel : Nat} {s t : Reached Kind}
    (hb : findsInner b = true) (hin : s.In source) (hs : s.found = [])
    (ht : Pattern.match? grammar fuel (.seq (.branch .opening a) b) s = some (some t)) :
    ∃ start stop inside rest, t.found.reverse = .branch .opening start stop inside :: rest ∧
      ∀ tree ∈ rest, IsInner tree := by
  cases fuel with
  | zero => cases ht
  | succ fuel =>
      cases Pattern.step_of_match? ht with
      | seq hu ht =>
          obtain ⟨trees, hfound, htrees⟩ :=
            (finds_inner source).added_of_match? hb ((Pattern.advances_of_match? hu).stays_in hin) ht
          cases fuel with
          | zero => cases hu
          | succ fuel =>
              cases Pattern.step_of_match? hu with
              | @branch _ _ _ u _ =>
                  rw [hs] at hfound
                  refine ⟨s.offset, u.offset, u.found.reverse, trees.reverse, ?_, ?_⟩
                  · rw [hfound, List.reverse_append]
                    rfl
                  · exact fun tree htree => htrees tree (List.mem_reverse.mp htree)

theorem headed_branch {kind : Kind} (start stop : Nat) {parts : List (Grammar.Tree Kind)} (helement : kind ≠ .element)
    (hopening : kind ≠ .opening) : Headed (.branch kind start stop parts) ↔
      (∀ tree ∈ parts, IsInner tree) ∧ AllHeaded parts := by
  cases kind <;> first | contradiction | rfl

theorem finds_headed (source : List Char) : Grammar.Finds grammar source (findsHeaded · = true) Headed where
  seq := Bool.and_eq_true_iff.mp
  alt := Bool.and_eq_true_iff.mp
  many := fun h => h
  rule := fun _ => findsHeaded_grammar _
  leaf := fun _ _ _ _ => trivial
  branch := by
    intro kind a h fuel s t hin hs ht hinside
    by_cases helement : kind = .element
    · subst helement
      obtain ⟨c, b, rfl, hinner, hheaded⟩ := exists_of_findsHeaded h
      have hparts := hinside (Bool.and_eq_true_iff.mpr ⟨rfl, hheaded⟩)
      exact ⟨exists_opening_of_match? hinner hin hs ht,
        allHeaded_iff.mpr fun tree htree => hparts tree (List.mem_reverse.mp htree)⟩
    by_cases hopening : kind = .opening
    · subst hopening
      trivial
    · have hboth : findsInner a = true ∧ findsHeaded a = true := by
        cases kind <;> first | contradiction | exact Bool.and_eq_true_iff.mp h
      obtain ⟨trees, hfound, htrees⟩ := (finds_inner source).added_of_match? hboth.1 hin ht
      rw [hs, List.append_nil] at hfound
      exact (headed_branch _ _ helement hopening).mpr ⟨fun tree htree => htrees tree (hfound ▸ List.mem_reverse.mp htree),
        allHeaded_iff.mpr fun tree htree => hinside hboth.2 tree (List.mem_reverse.mp htree)⟩

variable {source : List Char} {trees : List (Grammar.Tree Kind)}

theorem headed_of_parse? (h : Grammar.parse? grammar .program source = some trees) :
    AllHeaded trees ∧ ∀ tree ∈ trees, IsInner tree :=
  ⟨allHeaded_iff.mpr ((finds_headed source).found_of_parse? rfl h), (finds_inner source).found_of_parse? rfl h⟩

theorem tagIn_eq_none (h : ∀ tree ∈ trees, IsInner tree) : tagIn trees = none := by
  refine List.findSome?_eq_none_iff.mpr fun tree htree => ?_
  have htree := h tree htree
  cases tree with
  | leaf kind start stop text => rfl
  | branch kind start stop parts => cases kind <;> first | rfl | exact htree.elim

theorem tagIn_opening (start stop : Nat) (parts trees : List (Grammar.Tree Kind)) :
    tagIn (.branch .opening start stop parts :: trees) = (tagOf parts).or (tagIn trees) := by
  rw [tagIn, List.findSome?_cons]
  cases h : tagOf parts with
  | none => simp only [h, Option.none_or, tagIn]
  | some t => simp only [h, Option.some_or]

theorem tags_nodesOf_eq (hheaded : AllHeaded trees) :
    ((∀ tree ∈ trees, IsInner tree) → Node.tags (nodesOf trees) = tagsFound trees) ∧
      ((∀ tree ∈ trees.tail, IsInner tree) → Node.tags (nodesOf trees.tail) = tagsFound trees.tail) := by
  induction trees using Grammar.Tree.list_induction with
  | nil => exact ⟨fun _ => rfl, fun _ => rfl⟩
  | leaf kind start stop text rest ih =>
      have hrest := (ih hheaded.2).1
      refine ⟨fun hinner => ?_, hrest⟩
      rw [tags_nodesOf_leaf]
      exact hrest (List.forall_mem_cons.mp hinner).2
  | branch kind start stop parts rest ihparts ihrest =>
      have hrest := (ihrest hheaded.2).1
      refine ⟨fun hinner => ?_, hrest⟩
      obtain ⟨hinner, hothers⟩ := List.forall_mem_cons.mp hinner
      have hbehind := hrest hothers
      by_cases hopening : kind = .opening
      · subst hopening
        exact hinner.elim
      rw [tagsFound, tagsFoundIn, if_neg hopening]
      by_cases helement : kind = .element
      · subst helement
        obtain ⟨⟨first, last, inside, others, rfl, hothers⟩, hparts⟩ := hheaded.1
        have hinside := (ihparts hparts).2 hothers
        have htag : tagIn (.branch .opening first last inside :: others) = tagOf inside := by
          rw [tagIn_opening, tagIn_eq_none hothers, Option.or_none]
        simp only [List.tail_cons] at hinside
        rw [nodesOf_element, Node.tags, Node.tagsIn, htag, nodesOf_opening, hinside, hbehind, tagsFound, tagsFoundIn,
          if_pos rfl]
      · obtain ⟨hothers, hparts⟩ := (headed_branch start stop helement hopening).mp hheaded.1
        rw [tags_nodesOf_branch _ _ _ helement hopening, (ihparts hparts).1 hothers, hbehind]

/-- Where no elements stand inside of start tags, all elements are looked for. -/
theorem elementTags_eq_tags_nodesOf (h : hiddenTags trees = []) : elementTags trees = Node.tags (nodesOf trees) := by
  induction trees using Grammar.Tree.list_induction with
  | nil => rfl
  | leaf kind start stop text rest ih =>
      rw [tags_nodesOf_leaf]
      exact ih h
  | branch kind start stop parts rest ihparts ihrest =>
      obtain ⟨hinside, hbehind⟩ := List.append_eq_nil_iff.mp h
      rw [elementTags, ihrest hbehind]
      by_cases hopening : kind = .opening
      · subst hopening
        rw [nodesOf_opening]
        exact congrArg (· ++ _) hinside
      have hparts : hiddenTags parts = [] := by cases kind <;> first | contradiction | exact hinside
      by_cases helement : kind = .element
      · subst helement
        rw [elementTagsIn, nodesOf_element, Node.tags, Node.tagsIn, ihparts hparts]
      · rw [tags_nodesOf_branch _ _ _ helement hopening, ← ihparts hparts]
        cases kind <;> first | contradiction | rfl

end Headed

section Faded

open Node (bare allBare)

theorem bareTag_or (a b : Option Tag) : bareTag (a.or b) = (bareTag a).or (bareTag b) := by
  cases a <;> rfl

theorem tagIn_allFaded (trees : List (Grammar.Tree Kind)) : tagIn (allFaded trees) = bareTag (tagIn trees) := by
  induction trees with
  | nil => rfl
  | cons tree trees ih =>
      cases tree with
      | leaf kind start stop text => exact ih
      | branch kind start stop parts =>
          cases kind with
          | opening =>
              rw [allFaded, faded, if_pos rfl, tagIn_opening, tagIn_opening, ih, bareTag_or]
              cases tagOf parts <;> rfl
          | _ => exact ih

theorem meantIn_allFaded (trees : List (Grammar.Tree Kind)) :
    (stringIn (allFaded trees)).map (·.flatMap meantText) = (stringIn trees).map (·.flatMap meantText) := by
  rw [stringIn_allFaded, Option.map_map]
  exact Option.map_congr fun leaves _ =>
    flatMap_allFaded (fun kind _ _ _ => by cases kind <;> rfl) (fun _ _ _ _ => rfl) leaves

/-- Trees that fade to the same stand for nodes that differ only in what start tags say. -/
theorem nodesOf_allFaded (trees : List (Grammar.Tree Kind)) : nodesOf (allFaded trees) = allBare (nodesOf trees) := by
  induction trees using Grammar.Tree.list_induction with
  | nil => rfl
  | leaf kind start stop text rest ih => cases kind <;> simp [allFaded, faded, nodesOf, nodeOf?, allBare, bare, ih]
  | branch kind start stop parts rest ihparts ihrest =>
      rw [allFaded, faded]
      by_cases hopening : kind = .opening
      · subst hopening
        exact ihrest
      rw [if_neg hopening]
      have hpassed (literal : Option (List Char)) : Node.expression literal (nodesOf (allFaded parts)) ::
          nodesOf (allFaded rest) = allBare (.expression literal (nodesOf parts) :: nodesOf rest) := by
        rw [ihparts, ihrest]
        rfl
      cases kind with
      | opening => contradiction
      | element =>
          rw [nodesOf_element, nodesOf_element, tagIn_allFaded, ihparts, ihrest]
          rfl
      | expression =>
          refine Eq.trans ?_ (hpassed ((stringIn parts).map (·.flatMap meantText)))
          exact congrArg (fun literal => Node.expression literal _ :: _) (meantIn_allFaded parts)
      | _ => exact hpassed none

end Faded

/-- The program is read as it is written, whatever its start tags say in a plain way: an outline tells how. The nodes are
those that it stands for but for what start tags say. -/
structure Outlined (pieces : List Piece) (nodes : List Node) : Prop where
  plain : ∀ w, .tag w ∈ pieces → w.IsPlain
  seen : ∃ fuel t, Outline.look true fuel (rule .program) { rest := pieces.map mark } = some (some t) ∧ t.rest = [] ∧
    nodesOf t.found.reverse = nodes

namespace Outlined

variable {pieces : List Piece} {nodes : List Node}

/-- A program whose outline is known can be read. All its elements are looked for. -/
theorem reads (h : Outlined pieces nodes) : ∃ trees, reader (textOf pieces) = .ok trees ∧
    Node.tags (nodesOf trees) = placed 0 pieces ∧ Node.allBare (nodesOf trees) = nodes ∧
      elementTags trees = Node.tags (nodesOf trees) := by
  obtain ⟨fuel, t, hlook, hrest, rfl⟩ := h.seen
  obtain ⟨trees, htrees, hfaded, htags, hhidden⟩ := exists_parse?_of_look (fun w hw => (h.plain w hw).reads) hlook hrest
  obtain ⟨hheaded, hinner⟩ := headed_of_parse? htrees
  exact ⟨trees, reader_eq_ok_iff.mpr htrees, ((tags_nodesOf_eq hheaded).1 hinner).trans htags,
    (nodesOf_allFaded trees).symm.trans (congrArg nodesOf hfaded), elementTags_eq_tags_nodesOf hhidden⟩

theorem replace {front behind : List Piece} {w w' : WrittenTag} (h : Outlined (front ++ .tag w :: behind) nodes)
    (hw : w.IsPlain → w'.IsPlain) : Outlined (front ++ .tag w' :: behind) nodes where
  plain := by
    intro u hu
    rcases List.mem_append.mp hu with hfront | hthere
    · exact h.plain u (List.mem_append_left _ hfront)
    rcases List.mem_cons.mp hthere with hthis | hbehind
    · obtain rfl := Piece.tag.inj hthis
      exact hw (h.plain w (List.mem_append_right _ List.mem_cons_self))
    · exact h.plain u (List.mem_append_right _ (List.mem_cons_of_mem _ hbehind))
  seen := by
    have hmarks : (front ++ .tag w' :: behind).map mark = (front ++ .tag w :: behind).map mark := by
      simp only [List.map_append, List.map_cons]
      rfl
    rw [hmarks]
    exact h.seen

variable {o : Options}

/-- The grammar takes such programs as they are written, if the name of the attribute can be read. -/
theorem tells (hattr : IsAttributeName o.attr) (hword : o.attr.takeWhile isNameChar ≠ "extends".toList) :
    Tells reader o (fun _ => []) Outlined where
  reads h := by
    obtain ⟨trees, hread, hplaced, hbare, -⟩ := h.reads
    exact ⟨trees, hread, regular_of_reader hread, hplaced, hbare⟩
  shown h w hw p hp := ((h.plain w hw).parts p hp).text_ne_nil
  cut h _ := h.replace fun hw => ⟨hw.name, hw.word, fun p hp => hw.parts p (by
    rcases List.mem_append.mp hp with hp | hp
    · exact List.mem_append_left _ hp
    · exact List.mem_append_right _ (List.mem_cons_of_mem _ hp))⟩
  put id h := h.replace fun hw => ⟨hw.name, hw.word, fun p hp => by
    rcases List.mem_append.mp hp with hp | hp
    · exact hw.parts p hp
    · rw [List.mem_singleton.mp hp]
      exact WrittenPart.isPlain_given hattr hword id.toList⟩
  values := by
    intro pieces nodes trees h hread
    obtain ⟨trees', hread', hplaced, -, helements⟩ := h.reads
    obtain rfl : trees' = trees := Except.ok.inj (hread'.symm.trans hread)
    rw [helements, hplaced]
    suffices hfrom : ∀ offset, (placed offset pieces).filterMap (·.existing? o.attr) =
        pieces.flatMap (Piece.values o fun _ => []) from hfrom 0
    clear h hread hread' hplaced helements
    induction pieces with
    | nil => exact fun _ => rfl
    | cons piece pieces ih =>
        intro offset
        cases piece with
        | char c => exact ih (offset + 1)
        | tag w =>
            have hnone : (w.parts.flatMap fun _ => ([] : List (List Char))) = [] :=
              List.flatMap_eq_nil_iff.mpr fun _ _ => rfl
            rw [placed, List.filterMap_cons, existing?_tag, ih, List.flatMap_cons, Piece.values, hnone, List.append_nil]
            cases w.existing? o.attr <;> rfl
  given _ := rfl

end Outlined

section Checked

/-- What a pattern finds in a text that it reads to the end, in outline. -/
def foundIn (fuel : Nat) (a : Part) (s : List Char) : Option (List (Grammar.Tree Kind)) :=
  match Outline.look false fuel a { rest := s.map .char, flag := none } with
  | some (some t) => if t.rest = [] then some t.found.reverse else none
  | _ => none

theorem isReadBy_of_foundIn {fuel : Nat} {a : Part} {s : List Char} {trees : List (Grammar.Tree Kind)}
    {p : List (Grammar.Tree Kind) → Prop} (ha : Known a) (h : foundIn fuel a s = some trees)
    (hp : ∀ parts, allFaded parts = trees → p parts) : IsReadBy a s p := by
  unfold foundIn at h
  split at h
  next t hlook =>
    split at h
    next hrest => exact isReadBy_of_look ha hlook hrest fun parts hparts => hp parts (hparts.trans (Option.some.inj h))
    · cases h
  · cases h

mutual

def isTagless : Grammar.Tree Kind → Bool
  | .leaf .. => true
  | .branch kind _ _ parts => kind != .opening && kind != .element && areTagless parts

def areTagless : List (Grammar.Tree Kind) → Bool
  | [] => true
  | tree :: rest => isTagless tree && areTagless rest

end

theorem elementTags_of_areTagless {trees : List (Grammar.Tree Kind)} (h : areTagless (allFaded trees) = true) :
    elementTags trees = [] := by
  induction trees using Grammar.Tree.list_induction with
  | nil => rfl
  | leaf kind start stop text rest ih => exact ih h
  | branch kind start stop parts rest ihparts ihrest =>
      rw [allFaded, areTagless, Bool.and_eq_true] at h
      obtain ⟨hthis, hothers⟩ := h
      rw [elementTags, ihrest hothers, List.append_nil]
      rw [faded] at hthis
      split at hthis
      next hopening =>
        rw [hopening] at hthis
        cases hthis
      next hopening =>
        rw [isTagless, Bool.and_eq_true, Bool.and_eq_true] at hthis
        cases kind <;> first | contradiction | exact ihparts hthis.2 | cases hthis.1.2

/-- The part of a start tag is read as it is written, and no elements stand inside, as far as an outline tells. -/
def WrittenPart.isPlain (fuel : Nat) (p : WrittenPart) : Bool :=
  !p.gap.isEmpty && p.gap.all isSpace && p.body.takeWhile isNameChar != "extends".toList &&
    match p with
    | bare _ name => isTagWord name
    | valued _ body name literal => body.head?.any isNameStart && (foundIn fuel attributeParts body).any fun trees =>
        nameIn trees == some name && (stringIn trees).map (·.flatMap writtenText) == literal && areTagless trees
    | spread _ code => code.head? == some '\x7b' && (foundIn fuel bracedParts code).any areTagless

theorem WrittenPart.isPlain_of_isPlain {fuel : Nat} {p : WrittenPart} (h : p.isPlain fuel) : p.IsPlain := by
  simp only [isPlain, Bool.and_eq_true, Bool.not_eq_true', List.isEmpty_eq_false_iff, List.all_eq_true, bne_iff_ne] at h
  obtain ⟨⟨⟨hgap, hblank⟩, hword⟩, hread⟩ := h
  refine ⟨hgap, hblank, hword, ?_⟩
  cases p with
  | bare gap name => exact .inl hread
  | valued gap body name literal =>
      obtain ⟨hstart, hfound⟩ := Bool.and_eq_true_iff.mp hread
      obtain ⟨c, hc, hstart⟩ := (Option.any_eq_true _ _).mp hstart
      obtain ⟨trees, htrees, hvalue⟩ := (Option.any_eq_true _ _).mp hfound
      obtain ⟨hboth, htagless⟩ := Bool.and_eq_true_iff.mp hvalue
      obtain ⟨hname, hliteral⟩ := Bool.and_eq_true_iff.mp hboth
      obtain ⟨further, hbody⟩ := List.head?_eq_some_iff.mp hc
      refine ⟨⟨c, further, hbody, hstart⟩, isReadBy_of_foundIn known_attributeParts htrees ?_⟩
      rintro parts rfl
      rw [nameIn_allFaded] at hname
      rw [stringIn_allFaded, Option.map_map] at hliteral
      refine ⟨beq_iff_eq.mp hname, (Option.map_congr fun leaves _ => ?_).trans (beq_iff_eq.mp hliteral),
        elementTags_of_areTagless htagless⟩
      exact (flatMap_allFaded (fun _ _ _ _ => rfl) (fun _ _ _ _ => rfl) leaves).symm
  | spread gap code =>
      obtain ⟨hstart, hfound⟩ := Bool.and_eq_true_iff.mp hread
      obtain ⟨trees, htrees, htagless⟩ := (Option.any_eq_true _ _).mp hfound
      refine ⟨List.head?_eq_some_iff.mp (beq_iff_eq.mp hstart), isReadBy_of_foundIn known_bracedParts htrees ?_⟩
      rintro parts rfl
      exact elementTags_of_areTagless htagless

/-- The pieces make up a program that is read along its outline. -/
def Piece.isOutlined (fuel : Nat) (pieces : List Piece) : Bool :=
  (pieces.all fun
    | .char _ => true
    | .tag w => isTagWord w.name && ["const".toList, "in".toList, "out".toList].all (w.name.takeWhile isNameChar != ·) &&
        w.parts.all (WrittenPart.isPlain fuel)) &&
    match Outline.look true fuel (rule .program) { rest := pieces.map mark } with
    | some (some t) => t.rest.isEmpty
    | _ => false

theorem exists_outlined_of_isOutlined {fuel : Nat} {pieces : List Piece} (h : Piece.isOutlined fuel pieces = true) :
    ∃ nodes, Outlined pieces nodes := by
  obtain ⟨htags, hlook⟩ := Bool.and_eq_true_iff.mp h
  split at hlook
  next t ht =>
    refine ⟨nodesOf t.found.reverse, fun w hw => ?_, fuel, t, ht, List.isEmpty_iff.mp hlook, rfl⟩
    have hw' := List.all_eq_true.mp htags _ hw
    simp only [Bool.and_eq_true] at hw'
    obtain ⟨⟨hname, hword⟩, hparts⟩ := hw'
    refine ⟨?_, ?_, fun p hp => WrittenPart.isPlain_of_isPlain (List.all_eq_true.mp hparts p hp)⟩
    · exact (Bool.or_eq_true_iff.mp hname).elim (fun hsimple => .inr (.word hsimple)) .inl
    · intro hmem
      exact absurd rfl (bne_iff_ne.mp (List.all_eq_true.mp hword _ hmem))
  · cases hlook

end Checked

end MarkupIds.Jsx
