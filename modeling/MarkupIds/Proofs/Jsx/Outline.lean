import MarkupIds.Proofs.Grammar.Answers
import MarkupIds.Proofs.Jsx.Foreseen
import MarkupIds.Proofs.Jsx.Pieces

/-! Programs in outline. An outline tells the characters of a program and where start tags stand, and not what these
say. Reading goes along an outline as long as every rule that comes to a start tag either refuses its first character
or reads it as the start tag of an element; then every program of that outline is read alike. -/

namespace MarkupIds.Jsx

open Grammar (Pattern Reached Answers Founded)

/-- What an outline tells of a piece. -/
inductive Mark where
  | char (c : Char)
  | tag
deriving DecidableEq, Repr

namespace Piece

def mark : Piece → Mark
  | char c => .char c
  | tag _ => .tag

end Piece

section Fading

mutual

/-- A tree without its places, and without what a start tag says but for whether it has a name. -/
def faded : Grammar.Tree Kind → Grammar.Tree Kind
  | .leaf kind _ _ text => .leaf kind 0 0 text
  | .branch kind _ _ parts =>
    if kind = .opening then .branch kind 0 0 (if (tagOf parts).isSome then [.leaf .name 0 0 []] else [])
    else .branch kind 0 0 (allFaded parts)

def allFaded : List (Grammar.Tree Kind) → List (Grammar.Tree Kind)
  | [] => []
  | tree :: trees => faded tree :: allFaded trees

end

mutual

def tagsFoundIn : Grammar.Tree Kind → List Tag
  | .leaf .. => []
  | .branch kind _ _ parts => if kind = .opening then (tagOf parts).toList else tagsFound parts

def tagsFound : List (Grammar.Tree Kind) → List Tag
  | [] => []
  | tree :: trees => tagsFoundIn tree ++ tagsFound trees

end

end Fading

/-- How far a reading along an outline has come. -/
structure Sight where
  rest : List Mark
  /-- What has been found, the last first and without places. -/
  found : List (Grammar.Tree Kind) := []
  /-- The mark for the patterns behind, where it is known. -/
  flag : Option Bool := some false

namespace Outline

/-- How a start tag ends: with what follows the end, closed at once, or in no way that is known. -/
inductive TagEnd where
  | opens (behind : List Mark)
  | closes
  | unknown

def isBlank : Mark → Bool
  | .char c => isSpace c
  | .tag => false

def tagEnd (rest : List Mark) : TagEnd :=
  match rest.dropWhile isBlank with
  | .char '>' :: behind => .opens behind
  | .char '/' :: .char '>' :: _ => .closes
  | _ => .unknown

/-- What follows the characters of a class. -/
def behindRun (whole : Bool) (p : Char → Bool) : List Mark → Option (List Mark)
  | [] => if whole then some [] else none
  | .char c :: rest => if p c then behindRun whole p rest else some (.char c :: rest)
  | .tag :: rest => if p '<' then none else some (.tag :: rest)

def behindText (whole : Bool) : List Char → List Mark → Option (Option (List Mark))
  | [], rest => some (some rest)
  | _ :: _, [] => if whole then some none else none
  | c :: literal, .char d :: rest => if c = d then behindText whole literal rest else some none
  | c :: literal, .tag :: _ =>
    if c = '<' then
      match literal with
      | [] => none
      | d :: _ => if isNameStart d then none else some none
    else some none

/-- The characters before the first start tag. -/
def leading : List Mark → List Char
  | .char c :: rest => c :: leading rest
  | _ => []

def holds (whole : Bool) (p : List Char → Bool) (rest : List Mark) : Option Bool :=
  let known := leading rest
  match rest.drop known.length with
  | [] => if whole || isTelling known then some (p known) else none
  | _ => if isTelling (known ++ ['<']) then some (p (known ++ ['<'])) else none

/-- The characters of some marks, where they are all characters. -/
def chars? : List Mark → Option (List Char)
  | [] => some []
  | .char c :: rest => (chars? rest).map (c :: ·)
  | .tag :: _ => none

/-- The pattern stands for type parameters, which may be missing. -/
def isGeneric : Part → Bool
  | .alt (.rule .typeParameters) .empty => true
  | _ => false

def withoutGeneric : Part → Option Part
  | .seq a b => if isGeneric a then some b else (withoutGeneric a).map fun a => .seq a b
  | _ => none

/-- What follows the start tag that has been reached. -/
def behindTag : Option (Option Sight) → Option (List Mark)
  | some (some s) =>
    match s.rest with
    | .tag :: rest => some rest
    | _ => none
  | _ => none

/-- The pattern does not match for sure. -/
def fails : Option (Option Sight) → Bool
  | some none => true
  | _ => false

/-- The match of a pattern along an outline. There is no answer where the fuel is too small, or where it might depend
on what a start tag says. The outline may be that of a whole program, all of whose start tags are marked, or of a part
that anything may follow. Type parameters may be read out of a start tag without attributes; then what stands behind
them must not match, whether they are there or not. -/
def look (whole : Bool) : Nat → Part → Sight → Option (Option Sight)
  | 0, _, _ => none
  | fuel + 1, pattern, s =>
    match pattern with
    | .empty => some (some s)
    | .char p =>
      match s.rest with
      | .char c :: rest => if p c then some (some { s with rest }) else some none
      | .tag :: _ => if p '<' then none else some none
      | [] => if whole then some none else none
    | .run p => (behindRun whole p s.rest).map fun rest => some { s with rest }
    | .text literal => (behindText whole literal s.rest).map fun r => r.map fun rest => { s with rest }
    | .seq a b =>
      match (withoutGeneric (.seq a b)).bind fun rest => (behindTag (look whole fuel trivia s)).map (rest, ·) with
      | some (rest, behind) =>
        match tagEnd behind with
        | .opens further =>
          if fails (look whole fuel rest s) && fails (look whole fuel rest { s with rest := further }) then some none
          else none
        | .closes => if fails (look whole fuel rest s) then some none else none
        | .unknown => none
      | none =>
        match look whole fuel a s with
        | some (some t) => look whole fuel b t
        | answer => answer
    | .alt a b =>
      match look whole fuel a s with
      | some none => look whole fuel b s
      | answer => answer
    | .many a =>
      match look whole fuel a s with
      | some (some t) => if t.rest.length == s.rest.length then some (some t) else look whole fuel (.many a) t
      | some none => some (some s)
      | none => none
    | .unless a =>
      match look whole fuel a s with
      | some (some _) => some none
      | some none => some (some s)
      | none => none
    | .given p => (holds whole p s.rest).map fun h => if h then some s else none
    | .flagged => s.flag.map fun h => if h then some s else none
    | .flag mark => some (some { s with flag := some mark })
    | .token kind a =>
      match look whole fuel a s with
      | some (some t) =>
        (chars? (s.rest.take (s.rest.length - t.rest.length))).map fun text =>
          some { t with found := .leaf kind 0 0 text :: s.found }
      | answer => answer
    | .branch kind a =>
      if kind = .opening ∧ s.rest.head? = some .tag then
        match tagEnd s.rest.tail with
        | .unknown => none
        | _ =>
          some (some { rest := s.rest.tail
                       found := .branch .opening 0 0 [.leaf .name 0 0 []] :: s.found
                       flag := none })
      else
        match look whole fuel a { s with found := [] } with
        | some (some t) =>
          if whole && kind == .opening &&
              ((tagOf t.found.reverse).isSome || (chars? (s.rest.take (s.rest.length - t.rest.length))).isNone) then none
          else some (some { t with found := faded (.branch kind 0 0 t.found.reverse) :: s.found })
        | answer => answer
    | .rule r => look whole fuel (grammar r) s

end Outline

open Piece

section Fading

theorem allFaded_append (a b : List (Grammar.Tree Kind)) : allFaded (a ++ b) = allFaded a ++ allFaded b := by
  induction a with
  | nil => rfl
  | cons tree a ih => exact congrArg (faded tree :: ·) ih

theorem allFaded_reverse (trees : List (Grammar.Tree Kind)) : allFaded trees.reverse = (allFaded trees).reverse := by
  induction trees with
  | nil => rfl
  | cons tree trees ih => rw [List.reverse_cons, allFaded_append, ih, allFaded, allFaded, allFaded, List.reverse_cons]

theorem tagsFound_append (a b : List (Grammar.Tree Kind)) : tagsFound (a ++ b) = tagsFound a ++ tagsFound b := by
  induction a with
  | nil => rfl
  | cons tree a ih => rw [List.cons_append, tagsFound, tagsFound, ih, List.append_assoc]

theorem tagIn_eq_none_of_tagsFound {trees : List (Grammar.Tree Kind)} (h : tagsFound trees = []) : tagIn trees = none := by
  induction trees with
  | nil => rfl
  | cons tree trees ih =>
      obtain ⟨hthis, hothers⟩ := List.append_eq_nil_iff.mp h
      cases hin : tagIn (tree :: trees) with
      | none => rfl
      | some t =>
          obtain ⟨start, stop, parts, rfl, htag⟩ | ht := tagIn_cons_eq_some hin
          · rw [tagsFoundIn, if_pos rfl, htag] at hthis
            cases hthis
          · exact (ih hothers ▸ ht).symm

theorem elementTags_eq_nil {trees : List (Grammar.Tree Kind)} (h : tagsFound trees = []) (hhidden : hiddenTags trees = []) :
    elementTags trees = [] := by
  induction trees using Grammar.Tree.list_induction with
  | nil => rfl
  | leaf kind start stop text rest ih => exact ih h hhidden
  | branch kind start stop parts rest ihparts ihrest =>
      obtain ⟨hthis, hothers⟩ := List.append_eq_nil_iff.mp h
      obtain ⟨hinside, hbehind⟩ := List.append_eq_nil_iff.mp hhidden
      rw [elementTags, ihrest hothers hbehind, List.append_nil]
      by_cases hopening : kind = .opening
      · subst hopening
        exact hinside
      · rw [tagsFoundIn, if_neg hopening] at hthis
        have hparts : hiddenTags parts = [] := by cases kind <;> first | contradiction | exact hinside
        by_cases helement : kind = .element
        · subst helement
          rw [elementTagsIn, tagIn_eq_none_of_tagsFound hthis, ihparts hthis hparts]
          rfl
        · cases kind <;> first | contradiction | exact ihparts hthis hparts

theorem isSome_tagOf_allFaded (trees : List (Grammar.Tree Kind)) :
    (tagOf (allFaded trees)).isSome = (tagOf trees).isSome := by
  induction trees with
  | nil => rfl
  | cons tree trees ih =>
      cases tree with
      | leaf kind start stop text => cases kind <;> first | rfl | exact ih
      | branch kind start stop parts =>
          rw [allFaded, faded]
          split <;> exact ih

theorem allFaded_allFaded (trees : List (Grammar.Tree Kind)) : allFaded (allFaded trees) = allFaded trees := by
  induction trees using Grammar.Tree.list_induction with
  | nil => rfl
  | leaf kind start stop text rest ih => exact congrArg (Grammar.Tree.leaf kind 0 0 text :: ·) ih
  | branch kind start stop parts rest ihparts ihrest =>
      have hthis : faded (faded (.branch kind start stop parts)) = faded (.branch kind start stop parts) := by
        by_cases hkind : kind = .opening
        · simp only [faded, hkind, if_true]
          split <;> rfl
        · simp only [faded, hkind, if_false, ihparts]
      rw [allFaded, allFaded, hthis, ihrest]

theorem faded_branch (kind : Kind) (start stop : Nat) (parts : List (Grammar.Tree Kind)) :
    faded (.branch kind 0 0 (allFaded parts)) = faded (.branch kind start stop parts) := by
  rw [faded, faded, allFaded_allFaded, isSome_tagOf_allFaded]

/-- Fading takes nothing from what the leaves hold. -/
theorem flatMap_allFaded {β : Type} {f : Grammar.Tree Kind → List β}
    (hleaf : ∀ kind start stop text, f (.leaf kind start stop text) = f (.leaf kind 0 0 text))
    (hbranch : ∀ kind start stop parts, f (.branch kind start stop parts) = []) (trees : List (Grammar.Tree Kind)) :
    (allFaded trees).flatMap f = trees.flatMap f := by
  induction trees with
  | nil => rfl
  | cons tree trees ih =>
      rw [allFaded, List.flatMap_cons, List.flatMap_cons, ih]
      cases tree with
      | leaf kind start stop text => rw [faded, ← hleaf kind start stop text]
      | branch kind start stop parts =>
          rw [faded, hbranch]
          split <;> rw [hbranch]

theorem nameIn_allFaded (trees : List (Grammar.Tree Kind)) : nameIn (allFaded trees) = nameIn trees := by
  induction trees with
  | nil => rfl
  | cons tree trees ih =>
      cases tree with
      | leaf kind start stop text => cases kind <;> first | rfl | exact ih
      | branch kind start stop parts =>
          rw [allFaded, faded]
          split <;> exact ih

theorem stringIn_allFaded (trees : List (Grammar.Tree Kind)) : stringIn (allFaded trees) = (stringIn trees).map allFaded := by
  induction trees with
  | nil => rfl
  | cons tree trees ih =>
      cases tree with
      | leaf kind start stop text => exact ih
      | branch kind start stop parts =>
          rw [allFaded, faded]
          cases kind <;> first | rfl | exact ih

end Fading

/-- White space and the end of a start tag. -/
def IsTagEnd (s : List Char) : Prop :=
  ∃ blanks rest, (∀ c ∈ blanks, isSpace c = true) ∧ (s = blanks ++ '>' :: rest ∨ s = blanks ++ '/' :: '>' :: rest)

/-- The start tag is read as it is written, with no elements inside. Of type parameters, which
may be looked for at its place, at most those of a start tag without attributes are found. -/
structure WrittenTag.Reads (w : WrittenTag) : Prop where
  start : ∃ c rest, w.text = '<' :: c :: rest ∧ isNameStart c = true
  opening : ∀ {tail : List Char} {x : Reached Kind}, IsTagEnd tail → x.rest = w.text ++ tail → x.found = [] →
    ∃ parts flag, tagOf parts = some (w.tag x.offset) ∧ elementTags parts = [] ∧ Answers grammar openingParts x
      (some { offset := x.offset + w.text.length, rest := tail, found := parts.reverse, flag })
  typeParameters : ∀ {tail : List Char} {x y : Reached Kind}, IsTagEnd tail → Answers grammar trivia x (some y) →
    y.rest = w.text ++ tail → Answers grammar (rule .typeParameters) x none ∨
      ∃ blanks rest, (∀ c ∈ blanks, isSpace c = true) ∧ tail = blanks ++ '>' :: rest ∧
        Answers grammar (rule .typeParameters) x
          (some { y with offset := y.offset + w.text.length + blanks.length + 1, rest })

end MarkupIds.Jsx
