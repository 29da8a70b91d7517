import MarkupIds.Proofs.Html.Ledger
import MarkupIds.Proofs.Html.Pass
import MarkupIds.Proofs.Html.Plain
import MarkupIds.Proofs.Html.Tagless
import MarkupIds.Proofs.Text.Position

/-! Documents in which every start tag is written plainly. Their ids are written tag by tag, and what
comes out is such a document again, with the same text between the tags. -/

namespace MarkupIds.Html

open MarkupIds.Markup (Node Tag Numbered)
open MarkupIds.Text (Position)

/-- The rest of a document behind the last construct that its end does not cut short. -/
def unread (s : List Char) : List Char := s.drop (Construct.textOf (constructs s)).length

/-- Every start tag of the document is written plainly, and none is cut short by its end. -/
def IsPlain (s : List Char) : Prop :=
  (∀ c ∈ constructs s, c.opens = true → ∃ t : WrittenTag, t.Plain ∧ c.text = t.text) ∧ Tagless (unread s)

/-- A piece of a document: a start tag, or something else with its tokens. -/
inductive Piece where
  | other (text : List Char) (tokens : List Token)
  | tag (t : WrittenTag)

namespace Piece

def construct : Piece → Construct
  | other text tokens => ⟨text, tokens, false⟩
  | tag t => ⟨t.text, [t.token], true⟩

def text (piece : Piece) : List Char := piece.construct.text

def textOf (pieces : List Piece) : List Char := pieces.flatMap text

/-- The pieces with ids in the start tags that get one. -/
def withIds (o : Options) : List Piece → List (Option String) → List Piece
  | [], _ => []
  | .other text tokens :: pieces, ids => .other text tokens :: withIds o pieces ids
  | .tag t :: pieces, some id :: ids => .tag (t.withId o.overwrite o.attr id.toList) :: withIds o pieces ids
  | .tag t :: pieces, none :: ids => .tag t :: withIds o pieces ids
  | .tag t :: pieces, [] => .tag t :: withIds o pieces []

/-- The edits that write the ids, where the pieces start at `offset`. -/
def editsFrom (o : Options) (offset : Nat) : List Piece → List (Option String) → List Edit
  | [], _ => []
  | .other text _ :: pieces, ids => editsFrom o (offset + text.length) pieces ids
  | .tag t :: pieces, some id :: ids =>
    ⟨offset, offset + t.text.length, (t.withId o.overwrite o.attr id.toList).text⟩ ::
      editsFrom o (offset + t.text.length) pieces ids
  | .tag t :: pieces, none :: ids => editsFrom o (offset + t.text.length) pieces ids
  | .tag t :: pieces, [] => editsFrom o (offset + t.text.length) pieces []

/-- The start tags among the pieces, each with its place, where the pieces start at `p`. -/
def tagsFrom (p : Position) : List Piece → List (Position × WrittenTag)
  | [] => []
  | .other text _ :: pieces => tagsFrom (p.advance text) pieces
  | .tag t :: pieces => (p, t) :: tagsFrom (p.advance t.text) pieces

theorem length_text_tag_pos (t : WrittenTag) : 0 < t.text.length := Nat.succ_pos _

theorem textOf_map_construct (pieces : List Piece) :
    Construct.textOf (pieces.map construct) = textOf pieces := List.flatMap_map ..

@[simp] theorem textOf_nil : textOf [] = [] := rfl

@[simp] theorem textOf_cons (piece : Piece) (pieces : List Piece) :
    textOf (piece :: pieces) = piece.text ++ textOf pieces := List.flatMap_cons

@[simp] theorem text_tag (t : WrittenTag) : (tag t).text = t.text := rfl

@[simp] theorem text_other (text : List Char) (tokens : List Token) : (other text tokens).text = text := rfl

theorem le_start_of_mem {o : Options} {offset : Nat} {pieces : List Piece} {ids : List (Option String)}
    {e : Edit} (h : e ∈ editsFrom o offset pieces ids) : offset ≤ e.start := by
  induction pieces, ids using withIds.induct generalizing offset with
  | case1 ids => cases h
  | case2 text tokens pieces ids ih =>
      rw [editsFrom] at h
      exact Nat.le_trans (Nat.le_add_right _ _) (ih h)
  | case3 t pieces id ids ih =>
      rw [editsFrom] at h
      rcases List.mem_cons.mp h with rfl | h
      · exact Nat.le_refl _
      · exact Nat.le_trans (Nat.le_add_right _ _) (ih h)
  | case4 t pieces ids ih =>
      rw [editsFrom] at h
      exact Nat.le_trans (Nat.le_add_right _ _) (ih h)
  | case5 t pieces ih =>
      rw [editsFrom] at h
      exact Nat.le_trans (Nat.le_add_right _ _) (ih h)

/-- The edits are in their order. -/
theorem inOrder_editsFrom (o : Options) (offset : Nat) (pieces : List Piece) (ids : List (Option String)) :
    Edit.inOrder (editsFrom o offset pieces ids) = editsFrom o offset pieces ids := by
  refine Edit.inOrder_of_pairwise ?_
  induction pieces, ids using withIds.induct generalizing offset with
  | case1 ids => exact .nil
  | case2 text tokens pieces ids ih => exact ih _
  | case3 t pieces id ids ih =>
      refine .cons (fun e he => ?_) (ih _)
      have hstart := le_start_of_mem he
      have hpos := length_text_tag_pos t
      have hlt : offset < e.start := by omega
      simp [Edit.le, hlt]
  | case4 t pieces ids ih => exact ih _
  | case5 t pieces ih => exact ih _

/-- The edits replace the start tags that get an id and leave all else. -/
theorem spliceFrom_editsFrom (o : Options) (pieces : List Piece) (ids : List (Option String))
    {offset cursor : Nat} {before : List Char} (h : cursor + before.length = offset) (rest : List Char) :
    Edit.spliceFrom cursor (before ++ (textOf pieces ++ rest)) (editsFrom o offset pieces ids) =
      .ok (before ++ (textOf (withIds o pieces ids) ++ rest)) := by
  induction pieces, ids using withIds.induct generalizing offset cursor before with
  | case1 ids => rfl
  | case2 text tokens pieces ids ih =>
      have hpast : cursor + (before ++ text).length = offset + text.length := by
        rw [List.length_append]
        omega
      have hmore := ih hpast
      simpa only [editsFrom, withIds, textOf_cons, text_other, List.append_assoc] using hmore
  | case3 t pieces id ids ih =>
      have hnil : offset + t.text.length + ([] : List Char).length = offset + t.text.length := Nat.add_zero _
      have hmore := ih hnil
      have hle : ¬ offset < cursor := by omega
      have hstart : offset - cursor = before.length := by omega
      have hstop : offset + t.text.length - cursor = (before ++ t.text).length := by
        rw [List.length_append]
        omega
      rw [editsFrom, withIds, textOf_cons, textOf_cons, text_tag, text_tag, Edit.spliceFrom,
        if_neg hle, hstart, hstop, List.append_assoc, ← List.append_assoc before, List.drop_left]
      rw [List.nil_append, List.nil_append] at hmore
      rw [hmore, List.append_assoc, List.take_left]
      simp only [List.append_assoc]
  | case4 t pieces ids ih =>
      have hpast : cursor + (before ++ t.text).length = offset + t.text.length := by
        rw [List.length_append]
        omega
      have hmore := ih hpast
      simpa only [editsFrom, withIds, textOf_cons, text_tag, List.append_assoc] using hmore
  | case5 t pieces ih =>
      have hpast : cursor + (before ++ t.text).length = offset + t.text.length := by
        rw [List.length_append]
        omega
      have hmore := ih hpast
      simpa only [editsFrom, withIds, textOf_cons, text_tag, List.append_assoc] using hmore

end Piece

namespace WrittenTag

/-- The element's tag, where the start tag stands at `p`. -/
def tagAt (t : WrittenTag) (p : Position) : Tag :=
  { name := String.ofList (Text.lower t.name), attributes := Builder.attributesOf t.pairs, position := p }

variable {t : WrittenTag} (ht : t.Plain) (hreadable : t.Readable)

include ht

theorem startsTag_text : startsTag t.text = true := by
  obtain ⟨c, name, hname, hletter⟩ := ht.legible.exists_name
  have htext : t.text = '<' :: c :: (name ++ t.parts.attributes ++ t.parts.tail) := by
    simp [text, StartTag.text, parts, hname]
  rw [htext]
  exact hletter

include hreadable

theorem standsAlone : (Piece.tag t).construct.StandsAlone := ht.readOpening_eq hreadable

theorem recast_withId {attr : List Char} (hattr : isAttrName attr = true) (overwrite : Bool)
    (id : List Char) :
    Construct.Recast (Piece.tag t).construct (Piece.tag (t.withId overwrite attr id)).construct where
  opens := rfl
  opens_new := rfl
  starts := startsTag_text ht
  starts_new := startsTag_text (ht.withId hattr overwrite id)
  alone_new := (ht.withId hattr overwrite id).readOpening_eq (hreadable.withId overwrite attr id)
  raw_eq _ := rfl

end WrittenTag

/-- The piece is a plain start tag that can be read, or brings no start tag. -/
def Piece.Fit : Piece → Prop
  | .other _ tokens => NoTags tokens
  | .tag t => t.Plain ∧ t.Readable

/-- The pieces of a document, and what its first pass leaves in a state. -/
structure MadeOf (s : List Char) (pieces : List Piece) (raw : Option String) (rest : List Char) :
    Prop where
  pass : FirstPass none s (pieces.map Piece.construct) raw rest
  fit : ∀ piece ∈ pieces, piece.Fit
  tagless : Tagless rest

theorem exists_pieces {raw raw' : Option String} (hraw : IsRawState raw) {s rest : List Char}
    {cs : List Construct} (h : FirstPass raw s cs raw' rest)
    (hplain : ∀ c ∈ cs, c.opens = true → ∃ t : WrittenTag, t.Plain ∧ c.text = t.text) :
    ∃ pieces : List Piece, pieces.map Piece.construct = cs ∧ ∀ piece ∈ pieces, piece.Fit := by
  induction h with
  | done => exact ⟨[], rfl, List.forall_mem_nil _⟩
  | @step raw raw' c s rest cs found opens more ih =>
      obtain ⟨pieces, hpieces, hfit⟩ := ih (isRawState_rawAfter hraw _) fun d hd =>
        hplain d (List.mem_cons_of_mem c hd)
      suffices hc : ∃ piece : Piece, piece.construct = c ∧ piece.Fit by
        obtain ⟨piece, hpiece, hpieceFit⟩ := hc
        exact ⟨piece :: pieces, by rw [List.map_cons, hpiece, hpieces],
          List.forall_mem_cons.mpr ⟨hpieceFit, hfit⟩⟩
      by_cases hopens : c.opens = true
      · obtain ⟨t, ht, htext⟩ := hplain c List.mem_cons_self hopens
        obtain ⟨hnone, hstarts⟩ := Bool.and_eq_true_iff.mp (opens.symm.trans hopens)
        obtain rfl := Option.isNone_iff_eq_none.mp hnone
        have hread := readOpening_of_findingAt hstarts found
        rw [htext] at hread
        have hreadable := ht.readable_of_readOpening hread
        rw [ht.readOpening_eq hreadable] at hread
        have htokens : [t.token] = c.tokens := (Reading.read.inj hread).1
        refine ⟨.tag t, ?_, ht, hreadable⟩
        obtain ⟨text, tokens, opens⟩ := c
        cases htext
        cases htokens
        cases hopens
        rfl
      · have hno : NoTags c.tokens := by
          have hstarts : raw = none → startsTag (c.text ++ s) = false := by
            rintro rfl
            rw [← Bool.not_eq_true, ← Bool.true_and (startsTag (c.text ++ s))]
            exact opens ▸ hopens
          have hfound : NoTags (findingAt false raw (c.text ++ s)).tokens := noTags_findingAt hstarts
          rw [found] at hfound
          exact hfound
        refine ⟨.other c.text c.tokens, ?_, hno⟩
        obtain ⟨text, tokens, opens⟩ := c
        simp only [Bool.not_eq_true] at hopens
        cases hopens
        rfl

theorem IsPlain.exists_madeOf {s : List Char} (h : IsPlain s) :
    ∃ pieces raw, MadeOf s pieces raw (unread s) := by
  obtain ⟨hplain, htagless⟩ := h
  obtain ⟨raw, rest, hpass⟩ := firstPass_constructsFrom isRawState_none s.length s
  have hrest : unread s = rest :=
    calc unread s = (Construct.textOf (constructs s) ++ rest).drop (Construct.textOf (constructs s)).length :=
          congrArg (List.drop _) hpass.text_eq
      _ = rest := List.drop_left
  obtain ⟨pieces, hpieces, hfit⟩ := exists_pieces isRawState_none hpass hplain
  exact ⟨pieces, raw, by rw [hpieces, hrest]; exact hpass, hfit, htagless⟩

namespace MadeOf

variable {s rest : List Char} {pieces : List Piece} {raw : Option String}

theorem text_eq (h : MadeOf s pieces raw rest) : s = Piece.textOf pieces ++ rest := by
  rw [← Piece.textOf_map_construct]
  exact h.pass.text_eq

theorem fit_withIds (o : Options) (pieces : List Piece) (ids : List (Option String))
    (h : ∀ piece ∈ pieces, piece.Fit) : ∀ piece ∈ Piece.withIds o pieces ids, piece.Fit := by
  induction pieces, ids using Piece.withIds.induct with
  | case1 ids => exact h
  | case2 text tokens pieces ids ih =>
      obtain ⟨hfirst, hrest⟩ := List.forall_mem_cons.mp h
      exact List.forall_mem_cons.mpr ⟨hfirst, ih hrest⟩
  | case3 t pieces id ids ih =>
      obtain ⟨hfirst, hrest⟩ := List.forall_mem_cons.mp h
      exact List.forall_mem_cons.mpr
        ⟨⟨hfirst.1.withId o.attr_plain o.overwrite id.toList, hfirst.2.withId o.overwrite o.attr id.toList⟩, ih hrest⟩
  | case4 t pieces ids ih =>
      obtain ⟨hfirst, hrest⟩ := List.forall_mem_cons.mp h
      exact List.forall_mem_cons.mpr ⟨hfirst, ih hrest⟩
  | case5 t pieces ih =>
      obtain ⟨hfirst, hrest⟩ := List.forall_mem_cons.mp h
      exact List.forall_mem_cons.mpr ⟨hfirst, ih hrest⟩

theorem alters_withIds (o : Options) (pieces : List Piece) (ids : List (Option String))
    (h : ∀ piece ∈ pieces, piece.Fit) :
    List.Forall₂ Construct.Alters (pieces.map Piece.construct)
      ((Piece.withIds o pieces ids).map Piece.construct) := by
  induction pieces, ids using Piece.withIds.induct with
  | case1 ids => exact .nil
  | case2 text tokens pieces ids ih => exact .cons (.inl rfl) (ih (List.forall_mem_cons.mp h).2)
  | case3 t pieces id ids ih =>
      obtain ⟨hfirst, hrest⟩ := List.forall_mem_cons.mp h
      exact .cons (.inr (WrittenTag.recast_withId hfirst.1 hfirst.2 o.attr_plain o.overwrite id.toList)) (ih hrest)
  | case4 t pieces ids ih => exact .cons (.inl rfl) (ih (List.forall_mem_cons.mp h).2)
  | case5 t pieces ih => exact .cons (.inl rfl) (ih (List.forall_mem_cons.mp h).2)

/-- The document with ids is made of the pieces with ids. -/
theorem withIds (h : MadeOf s pieces raw rest) (o : Options) (ids : List (Option String)) :
    MadeOf (Piece.textOf (Piece.withIds o pieces ids) ++ rest) (Piece.withIds o pieces ids) raw rest := by
  have halone : ∀ c ∈ pieces.map Piece.construct, c.opens = true → c.StandsAlone := by
    intro c hc hopens
    obtain ⟨piece, hpiece, rfl⟩ := List.mem_map.mp hc
    cases piece with
    | other text tokens => cases hopens
    | tag t => exact WrittenTag.standsAlone (h.fit _ hpiece).1 (h.fit _ hpiece).2
  have hpass := (h.pass.alter isRawState_none halone (alters_withIds o pieces ids h.fit)
    (Alike.refl rest)).1
  rw [Piece.textOf_map_construct] at hpass
  exact ⟨hpass, fit_withIds o pieces ids h.fit, h.tagless⟩

end MadeOf

end MarkupIds.Html
