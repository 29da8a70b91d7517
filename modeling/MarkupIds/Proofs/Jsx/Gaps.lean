import Mathlib.Data.List.Chain
import Mathlib.Data.List.TakeWhile
import MarkupIds.Proofs.Grammar.Leads
import MarkupIds.Proofs.Jsx.Extent

/-! What stands before an attribute: between it and the part of its start tag before it there is nothing but white
space, for comments are parts of the tag as well. -/

namespace MarkupIds.Jsx

open Grammar (Reached Advances Leads)

/-- From one offset of a text to another there is white space only. -/
def Spaces (source : List Char) (i j : Nat) : Prop :=
  ∀ k c, i ≤ k → k < j → source[k]? = some c → isSpace c = true

namespace Spaces

variable {source : List Char} {i j k : Nat}

theorem refl (source : List Char) (i : Nat) : Spaces source i i := by
  intro k c hi hj
  omega

theorem trans (hij : Spaces source i j) (hjk : Spaces source j k) : Spaces source i k := by
  intro l c hi hk hc
  by_cases hl : l < j
  · exact hij l c hi hl hc
  · exact hjk l c (by omega) hk hc

theorem of_taken {s : Reached Kind} (hs : s.In source) {taken rest : List Char} (hrest : s.rest = taken ++ rest)
    (htaken : ∀ c ∈ taken, isSpace c = true) : Spaces source s.offset (s.offset + taken.length) := by
  intro l c hi hj hc
  obtain ⟨n, rfl⟩ := Nat.exists_eq_add_of_le hi
  rw [← List.getElem?_drop, hs, hrest, List.getElem?_append_left (by omega)] at hc
  exact htaken c (List.mem_of_getElem? hc)

end Spaces

/-- An attribute stands behind white space only. -/
def Joined (source : List Char) (earlier later : Grammar.Tree Kind) : Prop :=
  match later with
  | .branch .attribute start _ _ => Spaces source (stopOf earlier) start
  | _ => True

section Match

variable {source : List Char}

/-- The trees found so far are joined, the last of them first. -/
structure Loose (source : List Char) (s : Reached Kind) : Prop where
  here : s.In source
  joined : s.found.IsChain fun later earlier => Joined source earlier later

/-- And behind the last of them there is only white space. -/
structure Tight (source : List Char) (s : Reached Kind) : Prop extends Loose source s where
  gap : ∀ tree ∈ s.found.head?, Spaces source (stopOf tree) s.offset

theorem Tight.taken {s : Reached Kind} (h : Tight source s) {taken rest : List Char} (hrest : s.rest = taken ++ rest)
    (htaken : ∀ c ∈ taken, isSpace c = true) :
    Tight source { s with offset := s.offset + taken.length, rest } where
  here := (Advances.of_taken hrest).stays_in h.here
  joined := h.joined
  gap := fun tree htree => (h.gap tree htree).trans (.of_taken h.here hrest htaken)

/-- A tree that ends where the match has come to is the last that was found. -/
theorem Loose.push {s t : Reached Kind} (h : Loose source s) (hin : t.In source) {tree : Grammar.Tree Kind}
    (hstop : stopOf tree = t.offset) (hjoined : ∀ earlier ∈ s.found.head?, Joined source earlier tree) :
    Tight source { t with found := tree :: s.found } where
  here := hin
  joined := List.isChain_cons.mpr ⟨hjoined, h.joined⟩
  gap := by
    intro last hlast
    obtain rfl : tree = last := Option.some.inj hlast
    rw [hstop]
    exact .refl _ _

theorem leads_token (kind : Kind) (a : Part) : Leads grammar (.token kind a) (Loose source) (Tight source) := by
  apply Leads.token
  intro s t text hs hadvances
  exact hs.push (hadvances.stays_in hs.here) rfl fun earlier _ => trivial

theorem leads_branch {kind : Kind} (hkind : kind ≠ .attribute) (a : Part) :
    Leads grammar (.branch kind a) (Loose source) (Tight source) := by
  apply Leads.branch
  intro s t hs hadvances
  refine hs.push (hadvances.stays_in hs.here) rfl ?_
  intro earlier _
  cases kind <;> first | contradiction | trivial

theorem leads_attribute (a : Part) : Leads grammar (.branch .attribute a) (Tight source) (Tight source) := by
  apply Leads.branch
  intro s t hs hadvances
  exact hs.push (hadvances.stays_in hs.here) rfl hs.gap

/-- White space and comments that are found. -/
theorem leads_foundTrivia : Leads grammar foundTrivia (Tight source) (Tight source) := by
  refine .many (.alt ?_ ?_)
  · refine .seq (Q := Tight source) ?_ ?_
    · apply Leads.char
      intro s c rest hs hrest hc
      have hone : s.rest = [c] ++ rest := hrest
      exact hs.taken hone (List.forall_mem_singleton.mpr hc)
    · apply Leads.run
      intro s hs
      exact hs.taken List.takeWhile_append_dropWhile.symm fun c => List.mem_takeWhile_imp
  · exact (leads_token _ _).mono (fun s hs => hs.toLoose) fun s hs => hs

/-- Silent patterns do not part what was found. -/
theorem leads_silent {a : Part} (ha : a.isSilent = true) : Leads grammar a (Loose source) (Loose source) := by
  intro fuel s t hs ht
  have hfound : t.found = s.found := Leads.of_isSilent s.found ha fuel s t rfl ht
  refine ⟨(Grammar.Pattern.advances_of_match? ht).stays_in hs.here, ?_⟩
  rw [hfound]
  exact hs.joined

theorem leads_jsxExpression : Leads grammar (rule .jsxExpression) (Loose source) (Tight source) :=
  .rule (.seq (leads_silent rfl) (leads_branch (by decide) _))

/-- The parts of a start tag. -/
def openingParts : Part :=
  match openingTag with
  | .branch _ a => a
  | a => a

theorem leads_openingParts :
    Leads grammar openingParts (fun s => s.In source ∧ s.found = []) (Tight source) := by
  have htight {s : Reached Kind} (hin : s.In source) (hfound : s.found = []) : Tight source s := by
    refine ⟨⟨hin, ?_⟩, ?_⟩
    · rw [hfound]
      exact .nil
    · rw [hfound]
      exact nofun
  have hbracket : Leads grammar (.text ['<']) (fun s => s.In source ∧ s.found = []) (Tight source) := by
    intro fuel s t hs ht
    have hfound : t.found = [] := Leads.of_isSilent [] rfl fuel s t hs.2 ht
    exact htight ((Grammar.Pattern.advances_of_match? ht).stays_in hs.1) hfound
  have hloose {a : Part} (h : Leads grammar a (Loose source) (Tight source)) :
      Leads grammar a (Tight source) (Tight source) := h.mono (fun s hs => hs.toLoose) fun s hs => hs
  have hname := hloose (leads_token .name elementName)
  have htypes : Leads grammar (.branch .typeArguments typeArgumentList) (Tight source) (Tight source) :=
    hloose (leads_branch (by decide) typeArgumentList)
  have hitem : Leads grammar (tagAttribute <|> rule .jsxExpression) (Tight source) (Tight source) :=
    .alt (leads_attribute _) (hloose leads_jsxExpression)
  refine .seq hbracket (.opt ?_)
  exact .seq (.seq (.seq leads_foundTrivia hname) (.opt (.seq leads_foundTrivia htypes)))
    (.many (.seq leads_foundTrivia hitem))

end Match

section Parts

variable {source : List Char} {trees : List (Grammar.Tree Kind)}

/-- Named attributes stand behind white space only. -/
def Spaced (source : List Char) (t : Tag) : Prop :=
  ∀ a ∈ t.attributes, a.name ≠ none → Spaces source a.before a.start

theorem spaces_of_mem_attributesOf {tree : Grammar.Tree Kind} (h : (tree :: trees).IsChain (Joined source))
    {a : Attribute} (ha : a ∈ attributesOf (stopOf tree) trees) (hname : a.name ≠ none) :
    Spaces source a.before a.start := by
  induction trees generalizing tree with
  | nil => cases ha
  | cons next trees ih =>
      obtain ⟨hjoined, hrest⟩ := List.isChain_cons_cons.mp h
      have hothers := ih hrest
      cases next with
      | leaf kind start stop text => exact hothers ha
      | branch kind start stop parts =>
          cases kind with
          | «attribute» =>
              rcases List.mem_cons.mp ha with rfl | ha
              · exact hjoined
              · exact hothers ha
          | expression =>
              rcases List.mem_cons.mp ha with rfl | ha
              · exact absurd rfl hname
              · exact hothers ha
          | _ => exact hothers ha

theorem spaced_of_tagOf (h : trees.IsChain (Joined source)) {t : Tag} (ht : tagOf trees = some t) :
    Spaced source t := by
  induction trees with
  | nil => cases ht
  | cons tree trees ih =>
      cases tree with
      | leaf kind start stop text =>
          cases kind with
          | name =>
              obtain rfl := Option.some.inj ht
              intro a ha hname
              exact spaces_of_mem_attributesOf h ha hname
          | _ => exact ih h.tail ht
      | branch kind start stop parts => exact ih h.tail ht

mutual

/-- In every start tag inside the tree, the attributes stand behind white space only. -/
def Gapped (source : List Char) : Grammar.Tree Kind → Prop
  | .leaf .. => True
  | .branch .opening _ _ parts => parts.IsChain (Joined source)
  | .branch _ _ _ parts => AllGapped source parts

/-- So it is in all of the trees. -/
def AllGapped (source : List Char) : List (Grammar.Tree Kind) → Prop
  | [] => True
  | tree :: rest => Gapped source tree ∧ AllGapped source rest

end

theorem allGapped_iff : AllGapped source trees ↔ ∀ tree ∈ trees, Gapped source tree := by
  induction trees with
  | nil => exact ⟨fun _ _ h => absurd h List.not_mem_nil, fun _ => trivial⟩
  | cons tree rest ih => rw [AllGapped, ih, List.forall_mem_cons]

theorem gapped_branch {kind : Kind} (hkind : kind ≠ .opening) {start stop : Nat} {parts : List (Grammar.Tree Kind)} :
    Gapped source (.branch kind start stop parts) ↔ AllGapped source parts := by
  cases kind <;> first | contradiction | exact Iff.rfl

/-- The patterns of the start tags that a pattern finds. -/
def openings : Part → List Part
  | .seq a b => openings a ++ openings b
  | .alt a b => openings a ++ openings b
  | .many a => openings a
  | .branch .opening a => [a]
  | .branch _ a => openings a
  | _ => []

theorem openings_branch {kind : Kind} (hkind : kind ≠ .opening) (a : Part) :
    openings (.branch kind a) = openings a := by
  cases kind <;> first | contradiction | rfl

theorem openings_grammar (r : Rule) : openings (grammar r) = if r = .element then [openingParts] else [] := by
  cases r <;> rfl

theorem finds_gapped (source : List Char) :
    Grammar.Finds grammar source (fun a => ∀ parts ∈ openings a, parts = openingParts) (Gapped source) where
  seq := List.forall_mem_append.mp
  alt := List.forall_mem_append.mp
  many := fun h => h
  rule := by
    intro r _ parts hparts
    rw [openings_grammar] at hparts
    split at hparts
    · exact List.mem_singleton.mp hparts
    · cases hparts
  leaf := fun _ _ _ _ => trivial
  branch := by
    intro kind a h fuel s t hin hs ht hinside
    by_cases hkind : kind = .opening
    · subst hkind
      obtain rfl := h a (List.mem_singleton_self a)
      have htight := leads_openingParts fuel s t ⟨hin, hs⟩ ht
      exact List.isChain_reverse.mpr htight.joined
    · rw [openings_branch hkind] at h
      rw [gapped_branch hkind, allGapped_iff]
      intro tree htree
      exact hinside h tree (List.mem_reverse.mp htree)

theorem allGapped_of_parse? (h : Grammar.parse? grammar .program source = some trees) : AllGapped source trees :=
  allGapped_iff.mpr ((finds_gapped source).found_of_parse? nofun h)

theorem spaced_of_tagIn (h : AllGapped source trees) {t : Tag} (ht : tagIn trees = some t) : Spaced source t := by
  induction trees with
  | nil => cases ht
  | cons tree trees ih =>
      rcases tagIn_cons_eq_some ht with ⟨start, stop, parts, rfl, hparts⟩ | ht
      · exact spaced_of_tagOf h.1 hparts
      · exact ih h.2 ht

/-- In the start tags of a program the attributes stand behind white space only. -/
theorem spaced_of_mem_tags (h : AllGapped source trees) {t : Tag} (ht : t ∈ Node.tags (nodesOf trees)) :
    Spaced source t := by
  induction trees using Grammar.Tree.list_induction with
  | nil => cases ht
  | leaf kind start stop text rest ih =>
      rw [tags_nodesOf_leaf] at ht
      exact ih h.2 ht
  | branch kind start stop parts rest ihparts ihrest =>
      have hparts (hkind : kind ≠ .opening) : AllGapped source parts := (gapped_branch hkind).mp h.1
      by_cases helement : kind = .element
      · subst helement
        rw [nodesOf_element, Node.tags, Node.tagsIn, List.mem_append, List.mem_append, Option.mem_toList] at ht
        rcases ht with (ht | ht) | ht
        · exact spaced_of_tagIn (hparts (by decide)) ht
        · exact ihparts (hparts (by decide)) ht
        · exact ihrest h.2 ht
      by_cases hopening : kind = .opening
      · subst hopening
        exact ihrest h.2 ht
      · rw [tags_nodesOf_branch start stop parts helement hopening, List.mem_append] at ht
        rcases ht with ht | ht
        · exact ihparts (hparts hopening) ht
        · exact ihrest h.2 ht

end Parts

end MarkupIds.Jsx
