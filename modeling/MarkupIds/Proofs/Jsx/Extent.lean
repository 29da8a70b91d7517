import MarkupIds.Proofs.Grammar.Extent
import MarkupIds.Jsx.Assign

/-! Where the start tags of a program stand. Each keeps to a stretch of the text of its own: the name
first, then the attributes one behind the other. -/

namespace MarkupIds.Jsx

open Grammar (Tree Spans spans_nil spans_leaf spans_branch)

theorem reader_eq_ok_iff {source : List Char} {trees : List (Grammar.Tree Kind)} :
    reader source = .ok trees ↔ Grammar.parse? grammar .program source = some trees := by
  unfold reader
  cases Grammar.parse? grammar .program source with
  | none => simp
  | some found => simp

/-- Attributes that stand one behind the other between two offsets, each behind what parts it from the
one before. -/
def Chained (first last : Nat) : List Attribute → Prop
  | [] => first ≤ last
  | a :: rest => first ≤ a.before ∧ a.before ≤ a.start ∧ a.start ≤ a.stop ∧ Chained a.stop last rest

/-- The end of the last of some attributes, or of what stands before them. -/
def lastStop (first : Nat) (attributes : List Attribute) : Nat :=
  (attributes.getLast?.map (·.stop)).getD first

theorem lastStop_cons (first : Nat) (a : Attribute) (attributes : List Attribute) :
    lastStop first (a :: attributes) = lastStop a.stop attributes := by
  cases attributes with
  | nil => rfl
  | cons b attributes =>
      rw [lastStop, lastStop, List.getLast?_cons_cons, List.getLast?_cons]
      rfl

theorem Chained.lastStop_bounds {first last : Nat} {attributes : List Attribute}
    (h : Chained first last attributes) :
    first ≤ lastStop first attributes ∧ lastStop first attributes ≤ last := by
  induction attributes generalizing first with
  | nil => exact ⟨Nat.le_refl _, h⟩
  | cons a attributes ih =>
      obtain ⟨hbefore, hstart, hstop, hrest⟩ := h
      obtain ⟨hle, hlast⟩ := ih hrest
      rw [lastStop_cons]
      exact ⟨by omega, hlast⟩

theorem Chained.mono_left {start first last : Nat} {attributes : List Attribute} (hle : start ≤ first)
    (h : Chained first last attributes) : Chained start last attributes := by
  cases attributes with
  | nil => exact Nat.le_trans hle h
  | cons a attributes => exact ⟨Nat.le_trans hle h.1, h.2⟩

theorem Chained.mono_right {first last stop : Nat} {attributes : List Attribute} (hle : last ≤ stop)
    (h : Chained first last attributes) : Chained first stop attributes := by
  induction attributes generalizing first with
  | nil => exact Nat.le_trans h hle
  | cons a attributes ih => exact ⟨h.1, h.2.1, h.2.2.1, ih h.2.2.2⟩

/-- The attributes among trees that stand one behind the other do so as well. -/
theorem chained_attributesOf {first last : Nat} {trees : List (Grammar.Tree Kind)}
    (h : Spans first last trees) : Chained first last (attributesOf first trees) := by
  induction trees generalizing first with
  | nil => exact spans_nil.mp h
  | cons tree trees ih =>
      cases tree with
      | leaf kind start stop text =>
          obtain ⟨hfirst, hstop, hrest⟩ := spans_leaf.mp h
          exact (ih hrest).mono_left (by omega)
      | branch kind start stop children =>
          obtain ⟨hfirst, hchildren, hrest⟩ := spans_branch.mp h
          have hle := hchildren.le
          have hothers := ih hrest
          have hskip : Chained first last (attributesOf stop trees) := hothers.mono_left (by omega)
          cases kind with
          | «attribute» => exact ⟨Nat.le_refl _, hfirst, hle, hothers⟩
          | expression => exact ⟨Nat.le_refl _, hfirst, hle, hothers⟩
          | _ => exact hskip

namespace Tag

/-- A start tag keeps to a stretch of the text. -/
def Within (first last : Nat) (t : Tag) : Prop :=
  first + t.name.length ≤ t.nameStop ∧ Chained t.nameStop last t.attributes

theorem Within.mono {first last start stop : Nat} {t : Tag} (hstart : start ≤ first)
    (hstop : last ≤ stop) (h : Within first last t) : Within start stop t :=
  ⟨by have := h.1; omega, h.2.mono_right hstop⟩

/-- Two start tags keep to different stretches of the text. -/
def Apart (t u : Tag) : Prop :=
  ∃ first middle last, (Within first middle t ∧ Within middle last u) ∨
    (Within first middle u ∧ Within middle last t)

theorem Apart.symm {t u : Tag} (h : Apart t u) : Apart u t := by
  obtain ⟨first, middle, last, hleft | hright⟩ := h
  · exact ⟨first, middle, last, .inr hleft⟩
  · exact ⟨first, middle, last, .inl hright⟩

/-- The place behind the last attribute of a start tag, or behind its name. -/
def place (t : Tag) : Nat := lastStop t.nameStop t.attributes

theorem Within.place_bounds {first last : Nat} {t : Tag} (h : Within first last t) :
    first + t.name.length ≤ t.place ∧ t.place ≤ last := by
  obtain ⟨hle, hlast⟩ := h.2.lastStop_bounds
  exact ⟨Nat.le_trans h.1 hle, hlast⟩

/-- Start tags with names that stand apart end at different places. -/
theorem Apart.place_ne {t u : Tag} (h : Apart t u) (ht : t.name ≠ []) (hu : u.name ≠ []) :
    t.place ≠ u.place := by
  have htpos := List.length_pos_iff.mpr ht
  have hupos := List.length_pos_iff.mpr hu
  obtain ⟨first, middle, last, ⟨hleft, hright⟩ | ⟨hleft, hright⟩⟩ := h
  · have := hleft.place_bounds
    have := hright.place_bounds
    omega
  · have := hleft.place_bounds
    have := hright.place_bounds
    omega

end Tag

namespace Node

/-- Induction on nodes and all inside them. -/
@[elab_as_elim]
theorem list_induction {motive : List Node → Prop} (nil : motive [])
    (element : ∀ tag children rest, motive children → motive rest →
      motive (.element tag children :: rest))
    (expression : ∀ literal inside rest, motive inside → motive rest →
      motive (.expression literal inside :: rest))
    (text : ∀ content rest, motive rest → motive (.text content :: rest)) : ∀ nodes, motive nodes
  | [] => nil
  | .element tag children :: rest =>
    element tag children rest (list_induction nil element expression text children)
      (list_induction nil element expression text rest)
  | .expression literal inside :: rest =>
    expression literal inside rest (list_induction nil element expression text inside)
      (list_induction nil element expression text rest)
  | .text content :: rest => text content rest (list_induction nil element expression text rest)

mutual

/-- The start tags of a node. -/
def tagsIn : Node → List Tag
  | .element tag children => tag.toList ++ tags children
  | .expression _ inside => tags inside
  | .text _ => []

/-- The start tags among some nodes and inside them. -/
def tags : List Node → List Tag
  | [] => []
  | node :: rest => node.tagsIn ++ tags rest

end

end Node

mutual

/-- The start tags of the elements that a tree makes up, those inside start tags counted in. -/
def elementTagsIn : Grammar.Tree Kind → List Tag
  | .leaf .. => []
  | .branch .element _ _ parts => (tagIn parts).toList ++ elementTags parts
  | .branch _ _ _ parts => elementTags parts

/-- The start tags of all elements among some trees. -/
def elementTags : List (Grammar.Tree Kind) → List Tag
  | [] => []
  | tree :: rest => elementTagsIn tree ++ elementTags rest

end

mutual

/-- The start tags that a tree holds where no element is looked for. -/
def hiddenTagsIn : Grammar.Tree Kind → List Tag
  | .leaf .. => []
  | .branch .opening _ _ parts => elementTags parts
  | .branch _ _ _ parts => hiddenTags parts

/-- The start tags among some trees that stand inside other start tags. -/
def hiddenTags : List (Grammar.Tree Kind) → List Tag
  | [] => []
  | tree :: rest => hiddenTagsIn tree ++ hiddenTags rest

end

theorem hiddenTags_append (a b : List (Grammar.Tree Kind)) : hiddenTags (a ++ b) = hiddenTags a ++ hiddenTags b := by
  induction a with
  | nil => rfl
  | cons tree a ih => rw [List.cons_append, hiddenTags, hiddenTags, ih, List.append_assoc]

section Trees

variable {first last : Nat} {trees : List (Grammar.Tree Kind)} {t : Tag}

theorem within_of_tagOf (h : Spans first last trees) (ht : tagOf trees = some t) :
    t.Within first last := by
  induction trees generalizing first with
  | nil => cases ht
  | cons tree trees ih =>
      cases tree with
      | leaf kind start stop text =>
          obtain ⟨hfirst, hstop, hrest⟩ := spans_leaf.mp h
          have hskip : tagOf trees = some t → t.Within first last := fun ht =>
            (ih hrest ht).mono (by omega) (Nat.le_refl _)
          cases kind with
          | name =>
              cases ht
              exact ⟨by simp only; omega, chained_attributesOf hrest⟩
          | _ => exact hskip ht
      | branch kind start stop children =>
          obtain ⟨hfirst, hchildren, hrest⟩ := spans_branch.mp h
          have hle := hchildren.le
          exact (ih hrest ht).mono (by omega) (Nat.le_refl _)

theorem tagIn_cons_eq_some {tree : Grammar.Tree Kind} (ht : tagIn (tree :: trees) = some t) :
    (∃ start stop parts, tree = .branch .opening start stop parts ∧ tagOf parts = some t) ∨
      tagIn trees = some t := by
  rw [tagIn, List.findSome?_cons] at ht
  split at ht
  next u hu =>
    cases ht
    split at hu
    next start stop parts => exact .inl ⟨start, stop, parts, rfl, hu⟩
    next => cases hu
  next => exact .inr ht

theorem within_of_tagIn (h : Spans first last trees) (ht : tagIn trees = some t) :
    t.Within first last := by
  induction trees generalizing first with
  | nil => cases ht
  | cons tree trees ih =>
      obtain ⟨middle, htree, hrest⟩ := h.of_cons
      obtain ⟨start, stop, parts, rfl, hparts⟩ | ht := tagIn_cons_eq_some ht
      · obtain ⟨hfirst, hchildren, hmiddle⟩ := spans_branch.mp htree
        have hstop := spans_nil.mp hmiddle
        have hlast := hrest.le
        exact (within_of_tagOf hchildren hparts).mono hfirst (by omega)
      · exact (ih hrest ht).mono htree.le (Nat.le_refl _)

theorem nodesOf_cons (tree : Grammar.Tree Kind) (trees : List (Grammar.Tree Kind)) :
    nodesOf (tree :: trees) = nodesOf [tree] ++ nodesOf trees := by
  rw [nodesOf, nodesOf, nodesOf, List.append_nil]

theorem nodesOf_element (start stop : Nat) (parts : List (Grammar.Tree Kind)) :
    nodesOf (.branch .element start stop parts :: trees) =
      .element (tagIn parts) (nodesOf parts) :: nodesOf trees := rfl

theorem nodesOf_opening (start stop : Nat) (parts : List (Grammar.Tree Kind)) :
    nodesOf (.branch .opening start stop parts :: trees) = nodesOf trees := rfl

/-- What is neither an element nor a start tag is passed through. -/
theorem exists_nodesOf_branch {kind : Kind} (trees : List (Grammar.Tree Kind)) (start stop : Nat)
    (parts : List (Grammar.Tree Kind)) (helement : kind ≠ .element) (hopening : kind ≠ .opening) :
    ∃ literal, nodesOf (.branch kind start stop parts :: trees) = .expression literal (nodesOf parts) :: nodesOf trees := by
  cases kind <;> first | contradiction | exact ⟨_, rfl⟩

theorem tags_append (a b : List Node) : Node.tags (a ++ b) = Node.tags a ++ Node.tags b := by
  induction a with
  | nil => rfl
  | cons node a ih => rw [List.cons_append, Node.tags, Node.tags, ih, List.append_assoc]

theorem tags_nodesOf_leaf (kind : Kind) (start stop : Nat) (text : List Char) :
    Node.tags (nodesOf (.leaf kind start stop text :: trees)) = Node.tags (nodesOf trees) := by
  cases kind <;> simp [nodesOf, nodeOf?, Node.tags, Node.tagsIn]

theorem tags_nodesOf_branch {kind : Kind} (start stop : Nat) (parts : List (Grammar.Tree Kind))
    (helement : kind ≠ .element) (hopening : kind ≠ .opening) :
    Node.tags (nodesOf (.branch kind start stop parts :: trees)) =
      Node.tags (nodesOf parts) ++ Node.tags (nodesOf trees) := by
  obtain ⟨literal, hnodes⟩ := exists_nodesOf_branch trees start stop parts helement hopening
  rw [hnodes, Node.tags, Node.tagsIn]

/-- The start tags of a program keep to the stretches of their trees. -/
theorem within_of_mem_tags (h : Spans first last trees) (ht : t ∈ Node.tags (nodesOf trees)) :
    t.Within first last := by
  induction trees using Tree.list_induction generalizing first last with
  | nil => simp [nodesOf, Node.tags] at ht
  | leaf kind start stop text rest ih =>
      obtain ⟨hfirst, hstop, hrest⟩ := spans_leaf.mp h
      rw [tags_nodesOf_leaf] at ht
      exact (ih hrest ht).mono (by omega) (Nat.le_refl _)
  | branch kind start stop parts rest ihparts ihrest =>
      obtain ⟨hfirst, hparts, hrest⟩ := spans_branch.mp h
      have hle := hparts.le
      have hlast := hrest.le
      have hbehind (ht : t ∈ Node.tags (nodesOf rest)) : t.Within first last :=
        (ihrest hrest ht).mono (by omega) (Nat.le_refl _)
      have hinside (ht : t ∈ Node.tags (nodesOf parts)) : t.Within first last :=
        (ihparts hparts ht).mono hfirst hlast
      by_cases helement : kind = .element
      · subst helement
        rw [nodesOf_element, Node.tags, Node.tagsIn, List.mem_append, List.mem_append,
          Option.mem_toList] at ht
        obtain (ht | ht) | ht := ht
        · exact (within_of_tagIn hparts ht).mono hfirst hlast
        · exact hinside ht
        · exact hbehind ht
      by_cases hopening : kind = .opening
      · subst hopening
        exact hbehind ht
      · rw [tags_nodesOf_branch start stop parts helement hopening, List.mem_append] at ht
        exact ht.elim hinside hbehind

/-- The start tag of an element stands apart from those inside it. -/
theorem apart_of_tagIn {u : Tag} (h : Spans first last trees) (ht : tagIn trees = some t)
    (hu : u ∈ Node.tags (nodesOf trees)) : t.Apart u := by
  induction trees generalizing first with
  | nil => cases ht
  | cons tree trees ih =>
      obtain ⟨middle, htree, hrest⟩ := h.of_cons
      rw [nodesOf_cons, tags_append, List.mem_append] at hu
      obtain ⟨start, stop, parts, rfl, hparts⟩ | ht := tagIn_cons_eq_some ht
      · have hthis : tagIn [.branch .opening start stop parts] = some t := by
          simp only [tagIn, List.findSome?_cons, hparts]
        rw [nodesOf_opening] at hu
        obtain hu | hu := hu
        · simp [nodesOf, Node.tags] at hu
        · exact ⟨first, middle, last, .inl ⟨within_of_tagIn htree hthis, within_of_mem_tags hrest hu⟩⟩
      · obtain hu | hu := hu
        · exact ⟨first, middle, last, .inr ⟨within_of_mem_tags htree hu, within_of_tagIn hrest ht⟩⟩
        · exact ih hrest ht hu

/-- No two start tags of a program share a stretch of the text. -/
theorem pairwise_apart (h : Spans first last trees) :
    (Node.tags (nodesOf trees)).Pairwise Tag.Apart := by
  induction trees using Tree.list_induction generalizing first last with
  | nil => simp [nodesOf, Node.tags]
  | leaf kind start stop text rest ih =>
      rw [tags_nodesOf_leaf]
      exact ih (spans_leaf.mp h).2.2
  | branch kind start stop parts rest ihparts ihrest =>
      obtain ⟨hfirst, hparts, hrest⟩ := spans_branch.mp h
      have hbehind := ihrest hrest
      have hinside := ihparts hparts
      have happart {t u : Tag} (ht : t.Within start stop) (hu : u ∈ Node.tags (nodesOf rest)) :
          t.Apart u := ⟨start, stop, last, .inl ⟨ht, within_of_mem_tags hrest hu⟩⟩
      by_cases helement : kind = .element
      · subst helement
        rw [nodesOf_element, Node.tags, Node.tagsIn]
        refine List.pairwise_append.mpr ⟨List.pairwise_append.mpr ⟨?_, hinside, ?_⟩, hbehind, ?_⟩
        · cases tagIn parts with
          | none => exact .nil
          | some t => exact List.pairwise_singleton _ _
        · intro t ht u hu
          exact apart_of_tagIn hparts (Option.mem_toList.mp ht) hu
        · intro t ht u hu
          obtain ht | ht := List.mem_append.mp ht
          · exact happart (within_of_tagIn hparts (Option.mem_toList.mp ht)) hu
          · exact happart (within_of_mem_tags hparts ht) hu
      by_cases hopening : kind = .opening
      · subst hopening
        exact hbehind
      · rw [tags_nodesOf_branch start stop parts helement hopening]
        refine List.pairwise_append.mpr ⟨hinside, hbehind, ?_⟩
        intro t ht u hu
        exact happart (within_of_mem_tags hparts ht) hu

end Trees

end MarkupIds.Jsx
