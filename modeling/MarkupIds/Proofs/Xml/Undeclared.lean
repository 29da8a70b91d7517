import MarkupIds.Proofs.Xml.Between
import MarkupIds.Proofs.Xml.Given
import MarkupIds.Xml.Document

/-! Outside of a document type nothing is declared, nor in one that is no more than a name. -/

namespace MarkupIds.Xml

namespace Reading

variable {α β : Type} {s t : State}

/-- A reading after which nothing is declared if nothing was before. -/
def Undeclaring (x : Reading α) : Prop := ∀ s a t, Undeclared s.docType → x s = .ok (a, t) → Undeclared t.docType

theorem Steady.undeclaring {A : List Char → List Char → Prop} [IsAhead A] {x : Reading α} (h : Steady A x) :
    Undeclaring x := fun s a t hs hx => (h s a t hs hx).undeclared hs

theorem Calm.undeclaring {x : Reading α} (h : Calm x) : Undeclaring x :=
  fun s a t hs hx => (h s a t hs hx).symm.undeclared

namespace Undeclaring

theorem pure (a : α) : Undeclaring (Pure.pure a) := (Calm.pure a).undeclaring

theorem fail (cause : Cause) : Undeclaring (Reading.fail cause : Reading α) := (Calm.fail cause).undeclaring

theorem remaining : Undeclaring Reading.remaining := Calm.remaining.undeclaring

theorem skip (count : Nat) : Undeclaring (Reading.skip count) := (Calm.skip count).undeclaring

theorem spaces : Undeclaring Reading.spaces := Calm.spaces.undeclaring

theorem accept (mark : List Char) : Undeclaring (Reading.accept mark) := (Calm.accept mark).undeclaring

theorem expect (mark : List Char) (cause : Cause) : Undeclaring (Reading.expect mark cause) :=
  (Calm.expect mark cause).undeclaring

theorem qualifiedName : Undeclaring Reading.qualifiedName :=
  (Steady.qualifiedName : Steady Next Reading.qualifiedName).undeclaring

theorem bindGiven (bound : Scope) (g : Given) : Undeclaring (Reading.bindGiven bound g) :=
  (Steady.bindGiven bound g : Steady Whatever _).undeclaring

theorem note (cause : Cause) : Undeclaring (Reading.note cause) := fun s u t hs h => by
  cases h
  exact hs

theorem state : Undeclaring (get : Reading State) := fun s a t hs h => by
  cases h
  exact hs

theorem docType : Undeclaring Reading.docType := fun s a t hs h => by
  cases h
  exact hs

theorem sees (mark : List Char) : Undeclaring (Reading.sees mark) := fun s a t hs h => by
  cases h
  exact hs

theorem change {f : State → State} (hf : ∀ s, (f s).docType = s.docType) : Undeclaring (modify f : Reading PUnit) :=
  fun s a t hs h => by
    cases h
    exact (hf s).symm ▸ hs

theorem bind {x : Reading α} {f : α → Reading β} (hx : Undeclaring x) (hf : ∀ a, Undeclaring (f a)) :
    Undeclaring (x >>= f) := fun s b t hs h => by
  obtain ⟨a, m, hfirst, hrest⟩ := bind_eq_ok.mp h
  exact hf a m b t (hx s a m hs hfirst) hrest

theorem ite {c : Prop} [Decidable c] {x y : Reading α} (hx : Undeclaring x) (hy : Undeclaring y) :
    Undeclaring (if c then x else y) := by
  split <;> assumption

theorem mapM {f : α → Reading β} (hf : ∀ a, Undeclaring (f a)) (l : List α) : Undeclaring (l.mapM f) := by
  induction l with
  | nil => exact .pure []
  | cons a l ih =>
      rw [List.mapM_cons]
      exact (hf a).bind fun b => ih.bind fun bs => .pure _

theorem forM {f : α → Reading PUnit} (hf : ∀ a, Undeclaring (f a)) (l : List α) : Undeclaring (l.forM f) := by
  induction l with
  | nil => exact .pure _
  | cons a l ih => exact (hf a).bind fun _ => ih

theorem foldlM {f : β → α → Reading β} (hf : ∀ b a, Undeclaring (f b a)) (l : List α) (b : β) :
    Undeclaring (l.foldlM f b) := by
  induction l generalizing b with
  | nil => exact .pure b
  | cons a l ih =>
      rw [List.foldlM_cons]
      exact (hf b a).bind ih

theorem givens (rules : List AttributeRule) (fuel : Nat) (bound : Scope) : Undeclaring (givens rules fuel bound) := by
  induction fuel generalizing bound with
  | zero => exact .pure _
  | succ fuel ih =>
      rw [Reading.givens]
      have hend : Undeclaring atTagEnd := fun s b t hs h => by rw [atTagEnd_eq_ok h]; exact hs
      refine hend.bind fun atEnd => ite (.pure _) ?_
      refine (Takes.given rules).steady.undeclaring.bind fun g => (bindGiven bound g).bind fun bound => ?_
      refine remaining.bind fun rest => ?_
      split
      · exact .pure _
      · exact .pure _
      · exact (spaces.bind fun _ => ite (.pure _) (.fail _)).bind fun _ => (ih bound).bind fun _ => .pure _

theorem attributeUri (scope : Scope) (element : List Char) (g : Given) :
    Undeclaring (Reading.attributeUri scope element g) := by
  unfold Reading.attributeUri
  split
  · exact .pure _
  · split
    · exact .pure _
    · exact (note _).bind fun _ => .pure _

theorem clashes (seen named : List (Given × Option (List Char))) : Undeclaring (Reading.clashes seen named) := by
  induction named generalizing seen with
  | nil => exact .pure _
  | cons a named ih =>
      obtain ⟨g, uri⟩ := a
      rw [Reading.clashes]
      refine (ih seen).ite ?_
      cases seen.find? fun other => other.1.name == g.name && other.2 == uri with
      | none => exact ih _
      | some other => exact (fail _).ite ((note _).bind fun _ => (ih seen).bind fun _ => .pure _)

theorem distinct (named : List (Given × Option (List Char))) : Undeclaring (Reading.distinct named) := by
  unfold Reading.distinct
  refine (clashes [] named).bind fun count => ite ?_ (.pure _)
  dsimp only
  split
  · exact .fail _
  · exact .pure _

theorem checkId (rules : List AttributeRule) (g : Given) : Undeclaring (Reading.checkId rules g) := by
  unfold Reading.checkId
  have hlast : Undeclaring (do
      if (← get).ids.contains g.value then Reading.note (.idRedefined (String.ofList g.value))
      else modify fun s => { s with ids := g.value :: s.ids }) :=
    state.bind fun s => (note _).ite (.change fun _ => rfl)
  dsimp only
  split
  · split
    · exact .pure _
    split
    · exact (note _).bind fun _ => hlast
    · exact hlast
  · exact .pure _

theorem startTag (outer : Scope) : Undeclaring (startTag outer) := by
  unfold Reading.startTag
  refine state.bind fun _ => (skip 1).bind fun _ => qualifiedName.bind fun found => ?_
  obtain ⟨owner, name⟩ := found
  have hclose {tag : Markup.Tag} {e : Open} (named : List (Given × Option (List Char))) (rules : List AttributeRule)
      (cause : Cause) : Undeclaring (do
        (named.map (·.1)).forM (Reading.checkId rules)
        let closed ← Reading.accept ['/', '>']
        if closed then return (tag, e, closed)
        else
          Reading.expect ['>'] cause
          return (tag, e, closed) : Reading (Markup.Tag × Open × Bool)) :=
    (forM (checkId _) _).bind fun _ => (accept _).bind fun _ => ite (.pure _) ((expect _ _).bind fun _ => .pure _)
  dsimp only
  refine ite ((fail _).bind fun _ => ?_) ?_
  all_goals
    refine docType.bind fun d => spaces.bind fun _ => remaining.bind fun rest => (givens _ _ _).bind fun written => ?_
    refine (foldlM bindGiven _ _).bind fun bound => (mapM (attributeUri _ _) _).bind fun uris => ?_
    refine (distinct _).bind fun _ => (mapM (attributeUri _ _) _).bind fun _ => ?_
    split
    · exact ite ((note _).bind fun _ => hclose _ _ _) (hclose _ _ _)
    · exact hclose _ _ _

theorem wrongName? (e : Open) : Undeclaring (wrongName? e) := by
  intro s wrong t hs h
  unfold Reading.wrongName? at h
  rw [bind_get_apply] at h
  obtain ⟨-, h⟩ | ⟨-, h⟩ := of_ite h
  · rw [bind_set_apply] at h
    obtain ⟨-, rfl⟩ := pure_eq_ok.mp h
    exact hs
  · cases howner : e.owner with
    | none =>
        rw [howner] at h
        exact (Calm.name.undeclaring.bind fun _ => .pure _) s wrong t hs h
    | some owner =>
        rw [howner] at h
        exact (qualifiedName.bind fun _ => .pure _) s wrong t hs h

theorem endTag (e : Open) : Undeclaring (endTag e) := by
  unfold Reading.endTag
  refine (skip 2).bind fun _ => (wrongName? e).bind fun wrong => spaces.bind fun _ => ?_
  refine (expect _ _).bind fun _ => ?_
  split
  · exact .pure _
  · exact .fail _

theorem characterData (fuel : Nat) : Undeclaring (characterData fuel) := by
  induction fuel with
  | zero => exact .pure _
  | succ fuel ih =>
      rw [Reading.characterData]
      refine remaining.bind fun rest => ?_
      split
      · exact .pure _
      · exact .pure _
      · exact .pure _
      · exact .fail _
      · exact (fail _).ite (((skip 1).bind fun _ => ih.bind fun _ => .pure _).ite (.fail _))

/-- Where nothing is declared, nothing is brought in by a reference. -/
theorem reference (expand : List Char → List Char → Reading Unit) : Undeclaring (reference expand) := by
  unfold Reading.reference
  refine remaining.bind fun rest => ?_
  split
  · exact Calm.characterReference.undeclaring.bind fun _ => .pure _
  · refine Calm.entityReference.undeclaring.bind fun name => ?_
    split
    · exact .pure _
    · intro s piece t hs h
      obtain ⟨e, m, he, -⟩ := bind_eq_ok.mp h
      exact absurd he (lookUp_undeclared hs)

theorem content (expand : Scope → List Char → List Char → Reading Unit) (inEntity : Bool) (outer : Scope) (fuel : Nat)
    (stack : List Open) : Undeclaring (content expand inEntity outer fuel stack) := by
  induction fuel generalizing stack with
  | zero => exact .fail _
  | succ fuel ih =>
      unfold Reading.content
      have hmore {x : Reading Piece} (hx : Undeclaring x) : Undeclaring (do
          let piece ← x
          return piece :: (← Reading.content expand inEntity outer fuel stack) : Reading (List Piece)) :=
        hx.bind fun _ => (ih stack).bind fun _ => .pure _
      refine ite (.pure _) ((sees _).bind fun _ => ite (hmore Steady.characterSection.undeclaring) ?_)
      refine (sees _).bind fun _ => ite (hmore Steady.comment.undeclaring) ?_
      refine remaining.bind fun rest => ?_
      split
      · exact .pure _
      · exact .fail _
      · exact hmore Steady.instruction.undeclaring
      · exact .fail _
      · exact (endTag _).bind fun _ => (ih _).bind fun _ => .pure _
      · refine (startTag _).bind fun found => ?_
        exact ite ((ih _).bind fun _ => .pure _) ((ih _).bind fun _ => .pure _)
      · exact hmore (reference _)
      · exact remaining.bind fun _ => (characterData _).bind fun _ => (ih stack).bind fun _ => .pure _

theorem root : Undeclaring root := by
  unfold Reading.root
  refine (startTag _).bind fun found => ite (.pure _) (docType.bind fun _ => remaining.bind fun _ => ?_)
  exact (content _ _ _ _ _).bind fun _ => .pure _

theorem allAsides : Undeclaring allAsides := by
  unfold Reading.allAsides
  refine remaining.bind fun rest => ?_
  induction rest.length.succ with
  | zero => exact .pure _
  | succ fuel ih =>
      rw [Reading.asides]
      have hmore {x : Reading Piece} (hx : Undeclaring x) : Undeclaring (do
          let piece ← x
          return piece :: (← Reading.asides fuel) : Reading (List Piece)) := hx.bind fun _ => ih.bind fun _ => .pure _
      refine spaces.bind fun _ => (sees _).bind fun _ => ite (hmore Steady.instruction.undeclaring) ?_
      exact (sees _).bind fun _ => ite (hmore Steady.comment.undeclaring) (.pure _)

end Undeclaring

section DocumentType

theorem Steady.typeName : Steady Next typeName := by
  unfold Reading.typeName
  refine (skip 9).bind fun _ => (someSpace _).bind fun _ => name.bind fun n => ?_
  have hrest : Steady Next (Reading.spaces >>= fun _ => Pure.pure n) := spaces.bind fun _ => .pure n
  exact ((Steady.fail _).bind fun _ => hrest).ite hrest

/-- A document type that is no more than a name declares nothing, and is read again. -/
theorem repeats_documentType {body r : List Char} {piece : Piece} (hs : Undeclared s.docType)
    (htext : s.rest = "<!DOCTYPE".toList ++ (body ++ '>' :: r)) (hbody : ∀ c ∈ body, Token.isTypeChar c = true)
    (h : documentType s = .ok (piece, t)) : Repeats Next (fun _ => documentType) s piece t := by
  obtain ⟨n, m, hname, hm⟩ := typeName_of_documentType h htext hbody
  cases h.symm.trans (documentType_of_typeName hname hm)
  have hagain := Steady.typeName s n m hs hname
  obtain ⟨b, hb⟩ := hagain.undeclared hs
  obtain ⟨q, hq, hagain⟩ := hagain
  have hend {k : State} {r' : List Char} (hk : k.rest = '>' :: r') (hdocType : k.docType = { standalone := b }) :
      (State.advance { k with docType := { k.docType with hasExternalSubset := false } } 1).rest = r' ∧
        Like (k.advance 1) (State.advance { k with docType := { k.docType with hasExternalSubset := false } } 1) := by
    have hsame : ({ k with docType := { k.docType with hasExternalSubset := false } } : State) = k := by
      cases k
      cases hdocType
      rfl
    rw [hsame]
    refine ⟨by rw [State.rest_advance, hk]; rfl, .refl ⟨b, ?_⟩⟩
    rw [State.docType_advance, hdocType]
  obtain ⟨hrest, hlast⟩ := hend hm hb
  refine ⟨q ++ ['>'], by rw [hrest, hq, hm, List.append_assoc]; rfl, fun k s' r' _ hs' _ hlike => ?_⟩
  rw [List.append_assoc] at hs'
  have hnext : Next m.rest ('>' :: r') := .inr ⟨[], '>', r, r', trivial, hm, rfl⟩
  obtain ⟨m', hm', hrest', hlike'⟩ := hagain (q.length + 1) s' ('>' :: r') (Nat.lt_succ_self _) hs' hnext hlike
  obtain ⟨hrest'', hlast'⟩ := hend hrest' (hlike'.docType.trans hb)
  exact ⟨_, documentType_of_typeName hm' hrest', hrest'', hlast.symm.trans ((hlike'.advance 1 1).trans hlast')⟩

end DocumentType

end Reading

end MarkupIds.Xml
