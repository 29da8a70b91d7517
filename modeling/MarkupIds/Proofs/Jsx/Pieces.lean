import MarkupIds.Proofs.Jsx.Rewriting

/-! Programs in pieces: start tags as they are written, and the characters between them. The text of a program with ids
is that of its pieces, with ids in the start tags that get some. -/

namespace MarkupIds.Jsx

/-- A part of a start tag behind its name, with the white space before it. -/
inductive WrittenPart where
  /-- The name of an attribute without a value. -/
  | bare (gap name : List Char)
  /-- An attribute with a value: how it is written, its name and, where the value is a string, that. -/
  | valued (gap body name : List Char) (literal : Option (List Char))
  /-- An expression in the place of attributes. -/
  | spread (gap code : List Char)
deriving DecidableEq, Repr

/-- A start tag as it is written, up to the end of its last attribute. -/
structure WrittenTag where
  name : List Char
  parts : List WrittenPart
deriving DecidableEq, Repr

namespace WrittenPart

def gap : WrittenPart → List Char
  | bare gap _ => gap
  | valued gap _ _ _ => gap
  | spread gap _ => gap

def body : WrittenPart → List Char
  | bare _ name => name
  | valued _ body _ _ => body
  | spread _ code => code

def text (p : WrittenPart) : List Char := p.gap ++ p.body

def name? : WrittenPart → Option (List Char)
  | bare _ name => some name
  | valued _ _ name _ => some name
  | spread _ _ => none

/-- The value of the attribute, where it is a string. -/
def literal? : WrittenPart → Option (List Char)
  | valued _ _ _ literal => literal
  | _ => none

/-- The attribute that is read where the part stands at an offset. -/
def placed (p : WrittenPart) (offset : Nat) : Attribute where
  name := p.name?
  literal := p.literal?
  before := offset
  start := offset + p.gap.length
  stop := offset + p.text.length

def attributes (offset : Nat) : List WrittenPart → List Attribute
  | [] => []
  | p :: parts => p.placed offset :: attributes (offset + p.text.length) parts

end WrittenPart

namespace WrittenTag

def text (w : WrittenTag) : List Char := '<' :: (w.name ++ w.parts.flatMap WrittenPart.text)

def tag (w : WrittenTag) (offset : Nat) : Tag where
  name := w.name
  nameStop := offset + 1 + w.name.length
  attributes := WrittenPart.attributes (offset + 1 + w.name.length) w.parts

end WrittenTag

/-- A piece of a program: a character, or a start tag up to the end of its last attribute. -/
inductive Piece where
  | char (c : Char)
  | tag (w : WrittenTag)

namespace Piece

def text : Piece → List Char
  | char c => [c]
  | tag w => w.text

def textOf (pieces : List Piece) : List Char := pieces.flatMap text

/-- The start tags that are read where pieces stand from an offset on. -/
def placed (offset : Nat) : List Piece → List Tag
  | [] => []
  | .char _ :: pieces => placed (offset + 1) pieces
  | .tag w :: pieces => w.tag offset :: placed (offset + w.text.length) pieces

theorem textOf_append (a b : List Piece) : textOf (a ++ b) = textOf a ++ textOf b := List.flatMap_append

theorem textOf_chars (cs : List Char) : textOf (cs.map char) = cs := by
  induction cs with
  | nil => rfl
  | cons c cs ih => exact congrArg (c :: ·) ih

theorem placed_append (offset : Nat) (a b : List Piece) :
    placed offset (a ++ b) = placed offset a ++ placed (offset + (textOf a).length) b := by
  induction a generalizing offset with
  | nil => rfl
  | cons piece a ih =>
      rw [List.cons_append, textOf, List.flatMap_cons, List.length_append, ← Nat.add_assoc]
      cases piece with
      | char c => exact ih (offset + 1)
      | tag w => exact congrArg (w.tag offset :: ·) (ih (offset + w.text.length))

theorem placed_chars (offset : Nat) (cs : List Char) : placed offset (cs.map char) = [] := by
  induction cs generalizing offset with
  | nil => rfl
  | cons c cs ih => exact ih (offset + 1)

theorem textOf_eq_nil {pieces : List Piece} (h : textOf pieces = []) : pieces = [] := by
  cases pieces with
  | nil => rfl
  | cons piece pieces => cases piece <;> cases h

end Piece

/-- An attribute with an escaped value in double quotes, as it is written for an id. -/
def WrittenPart.given (attr value : List Char) : WrittenPart :=
  .valued [' '] (attr ++ '=' :: '"' :: (value ++ ['"'])) attr (some value)

theorem WrittenPart.text_given (attr value : List Char) : (WrittenPart.given attr value).text = Markup.written attr value := rfl

/-- The part gives way to a new attribute: it has the name of that, and values may be overwritten. -/
def WrittenPart.yields (o : Options) (p : WrittenPart) : Bool := o.overwrite && p.name? == some o.attr

namespace WrittenTag

def kept (o : Options) (w : WrittenTag) : List WrittenPart := w.parts.filter fun p => !p.yields o

def withId (o : Options) (id : String) (w : WrittenTag) : WrittenTag :=
  { w with parts := w.kept o ++ [.given o.attr (escapeValue id.toList)] }

end WrittenTag

namespace Piece

/-- A program with ids for its start tags, in their order. -/
def withIds (o : Options) : List Piece → List (Option String) → List Piece
  | [], _ => []
  | .char c :: pieces, ids => .char c :: withIds o pieces ids
  | .tag w :: pieces, [] => .tag w :: pieces
  | .tag w :: pieces, id :: ids => .tag (id.elim w (w.withId o)) :: withIds o pieces ids

end Piece


section Writing

open WrittenPart

variable {o : Options}

theorem kept_eq (o : Options) (t : Tag) : t.kept o = t.attributes.filter fun a => !a.yields o := by
  unfold Tag.kept Attribute.yields
  cases o.overwrite <;> simp [bne]

theorem yields_placed (o : Options) (p : WrittenPart) (offset : Nat) : (p.placed offset).yields o = p.yields o := rfl

def takenBy (o : Options) (attributes : List Attribute) (i : Nat) : Bool :=
  attributes.any fun a => a.yields o && (a.before ≤ i && i < a.stop)

theorem takenBy_eq_false {attributes : List Attribute} {first last i : Nat} (h : Chained first last attributes)
    (hi : i < first ∨ last ≤ i) : takenBy o attributes i = false := by
  refine List.any_eq_false.mpr fun a ha => ?_
  have hbounds := h.of_mem ha
  simp only [Bool.and_eq_true, decide_eq_true_eq, not_and]
  omega

theorem chained_attributes (offset : Nat) (parts : List WrittenPart) :
    Chained offset (offset + (parts.flatMap WrittenPart.text).length) (attributes offset parts) := by
  induction parts generalizing offset with
  | nil => exact Nat.le_refl _
  | cons p parts ih =>
      have hrest := ih (offset + p.text.length)
      refine ⟨Nat.le_refl _, Nat.le_add_right _ _, ?_, ?_⟩
      · simp only [placed, text, List.length_append]
        omega
      · rw [List.flatMap_cons, List.length_append, ← Nat.add_assoc]
        exact hrest

variable {put : Nat → List Char} {offset : Nat}

/-- What the first of some attributes gives up stands in its place, and what the others do behind it. -/
theorem strandFrom_parts_cons (put : Nat → List Char) (offset : Nat) (p : WrittenPart) (parts : List WrittenPart) :
    Text.strandFrom put (takenBy o (attributes offset (p :: parts))) offset ((p :: parts).flatMap text) =
      Text.strandFrom put (fun _ => p.yields o) offset p.text ++
        Text.strandFrom put (takenBy o (attributes (offset + p.text.length) parts)) (offset + p.text.length)
          (parts.flatMap text) := by
  have hrest := chained_attributes (offset + p.text.length) parts
  have htakes (j : Nat) : takenBy o (attributes offset (p :: parts)) j =
      ((p.yields o && (decide (offset ≤ j) && decide (j < offset + p.text.length))) ||
        takenBy o (attributes (offset + p.text.length) parts) j) := rfl
  rw [List.flatMap_cons, Text.strandFrom_append]
  congr 1
  · refine Text.strandFrom_congr fun j hi hj => ⟨?_, rfl⟩
    rw [htakes, takenBy_eq_false hrest (.inl hj), decide_eq_true hi, decide_eq_true hj]
    simp
  · refine Text.strandFrom_congr fun j hi hj => ⟨?_, rfl⟩
    rw [htakes, decide_eq_false (Nat.not_lt.mpr hi)]
    simp

/-- Parts of a start tag in which nothing is put in: those stay that do not give way. -/
theorem strandFrom_parts (parts : List WrittenPart) (hput : ∀ j, offset < j → put j = []) :
    Text.strandFrom put (takenBy o (attributes offset parts)) offset (parts.flatMap text) =
      (parts.filter fun p => !p.yields o).flatMap text := by
  induction parts generalizing offset with
  | nil => rfl
  | cons p parts ih =>
      rw [strandFrom_parts_cons, Text.strandFrom_eq (p.yields o) fun j hi hj => ⟨rfl, hput _ (by omega)⟩,
        ih fun j hj => hput j (by omega), List.filter_cons]
      cases p.yields o <;> rfl

theorem exists_of_mem_attributes {parts : List WrittenPart} {a : Attribute} (h : a ∈ attributes offset parts) :
    ∃ p ∈ parts, ∃ i, offset ≤ i ∧ a = p.placed i := by
  induction parts generalizing offset with
  | nil => cases h
  | cons p parts ih =>
      rcases List.mem_cons.mp h with rfl | h
      · exact ⟨p, List.mem_cons_self, offset, Nat.le_refl _, rfl⟩
      · obtain ⟨q, hq, i, hi, rfl⟩ := ih h
        exact ⟨q, List.mem_cons_of_mem _ hq, i, by omega, rfl⟩

theorem filter_attributes_eq_nil {parts : List WrittenPart}
    (h : (attributes offset parts).filter (fun a => !a.yields o) = []) : parts.filter (fun p => !p.yields o) = [] := by
  induction parts generalizing offset with
  | nil => rfl
  | cons p parts ih =>
      rw [attributes, List.filter_cons, yields_placed] at h
      rw [List.filter_cons]
      split at h
      · cases h
      next hyields => rw [if_neg hyields, ih h]

/-- Parts of a start tag behind the last of which that stays something is put in. -/
theorem strandFrom_parts_put {parts : List WrittenPart} {a : Attribute} (htext : ∀ p ∈ parts, p.text ≠ [])
    (ha : ((attributes offset parts).filter fun a => !a.yields o).getLast? = some a)
    (hput : ∀ j, offset < j → j ≠ a.stop → put j = []) :
    Text.strandFrom put (takenBy o (attributes offset parts)) offset (parts.flatMap text) =
      (parts.filter fun p => !p.yields o).flatMap text ++ put a.stop := by
  induction parts generalizing offset with
  | nil => cases ha
  | cons p parts ih =>
      obtain ⟨hp, hparts⟩ := List.forall_mem_cons.mp htext
      rw [attributes, List.filter_cons, yields_placed] at ha
      rw [strandFrom_parts_cons, List.filter_cons]
      cases hlast : ((attributes (offset + p.text.length) parts).filter fun a => !a.yields o).getLast? with
      | some b =>
          -- The place is behind another part.
          obtain rfl : b = a := by
            split at ha
            · rw [List.getLast?_cons, hlast] at ha
              exact Option.some.inj ha
            · exact Option.some.inj (hlast.symm.trans ha)
          obtain ⟨q, hq, i, hi, rfl⟩ := exists_of_mem_attributes (List.mem_of_mem_filter (List.mem_of_getLast? hlast))
          have hpos := List.length_pos_iff.mpr (hparts q hq)
          have hstop : (q.placed i).stop = i + q.text.length := rfl
          rw [Text.strandFrom_eq (p.yields o) fun j hi hj => ⟨rfl, hput _ (by omega) (by omega)⟩,
            ih hparts hlast fun j hj => hput j (by omega)]
          cases p.yields o <;> simp
      | none =>
          -- It is behind this one.
          have hothers := List.getLast?_eq_none_iff.mp hlast
          rw [hothers] at ha
          split at ha
          next hstays =>
            obtain rfl : p.placed offset = a := Option.some.inj ha
            have hstop : (p.placed offset).stop = offset + p.text.length := rfl
            have hkeeps : p.yields o = false := by simpa using hstays
            rw [hstop] at hput ⊢
            rw [hkeeps, Text.strandFrom_eq_append hp fun j hi hj => ⟨rfl, fun hlt => hput _ (by omega) (by omega)⟩,
              strandFrom_parts parts fun j hj => hput j (by omega) (by omega), filter_attributes_eq_nil hothers]
            simp
          · cases ha

theorem takenFor_singleton (t : Tag) (id : String) : takenFor o [(t, id)] = takenBy o t.attributes := by
  funext i
  exact Bool.or_false _

theorem putFor_singleton (t : Tag) (id : String) (i : Nat) :
    putFor o [(t, id)] i = if t.newPlace o = i then Markup.written o.attr (escapeValue id.toList) else [] :=
  List.append_nil _

/-- A start tag in which something is put in at the place for a new attribute. -/
theorem strandFrom_tag {w : WrittenTag} (hw : ∀ p ∈ w.parts, p.text ≠ [])
    (hput : ∀ j, offset < j → j ≠ (w.tag offset).newPlace o → put j = []) :
    Text.strandFrom put (takenBy o (w.tag offset).attributes) offset w.text =
      '<' :: w.name ++ (w.kept o).flatMap text ++ put ((w.tag offset).newPlace o) := by
  have htakes (j : Nat) (hj : j < offset + 1 + w.name.length) : takenBy o (w.tag offset).attributes j = false :=
    takenBy_eq_false (chained_attributes _ _) (.inl hj)
  have hhead : offset + ('<' :: w.name).length = offset + 1 + w.name.length := by
    rw [List.length_cons]
    omega
  have hplace : (w.tag offset).newPlace o = ((((w.tag offset).attributes.filter fun a => !a.yields o).getLast?).map
      (·.stop)).getD (offset + 1 + w.name.length) := by
    rw [Tag.newPlace, kept_eq]
    rfl
  rw [WrittenTag.text, ← List.cons_append, Text.strandFrom_append, hhead]
  cases hlast : ((w.tag offset).attributes.filter fun a => !a.yields o).getLast? with
  | none =>
      rw [hlast, Option.map_none, Option.getD_none] at hplace
      have hnone : w.kept o = [] := filter_attributes_eq_nil (List.getLast?_eq_none_iff.mp hlast)
      rw [hplace] at hput ⊢
      rw [Text.strandFrom_eq_append (List.cons_ne_nil _ _) fun j hi hj =>
          ⟨htakes j (by omega), fun hlt => hput _ (by omega) (by omega)⟩, hhead, hnone, List.flatMap_nil, List.append_nil]
      have hparts := strandFrom_parts (o := o) w.parts
        fun j (hj : offset + 1 + w.name.length < j) => hput j (by omega) (by omega)
      change _ = (w.kept o).flatMap text at hparts
      rw [hnone] at hparts
      exact (congrArg (_ ++ ·) hparts).trans (List.append_nil _)
  | some a =>
      rw [hlast, Option.map_some, Option.getD_some] at hplace
      obtain ⟨q, hq, i, hi, ha⟩ := exists_of_mem_attributes (List.mem_of_mem_filter (List.mem_of_getLast? hlast))
      have hstop : a.stop = i + q.text.length := congrArg Attribute.stop ha
      have hpos := List.length_pos_iff.mpr (hw q hq)
      rw [hplace] at hput ⊢
      rw [Text.strandFrom_eq false fun j hi hj => ⟨htakes j (by omega), hput _ (by omega) (by omega)⟩, List.append_assoc]
      exact congrArg _ (strandFrom_parts_put hw hlast fun j hj => hput j (by omega))

theorem text_withId (o : Options) (id : String) (w : WrittenTag) : (w.withId o id).text =
    '<' :: w.name ++ (w.kept o).flatMap text ++ Markup.written o.attr (escapeValue id.toList) := by
  simp [WrittenTag.withId, WrittenTag.text, text_given]

theorem strandFrom_withId (o : Options) (id : String) {w : WrittenTag} (hw : ∀ p ∈ w.parts, p.text ≠ [])
    (offset : Nat) : Text.strandFrom (putFor o [(w.tag offset, id)]) (takenFor o [(w.tag offset, id)]) offset w.text =
      (w.withId o id).text := by
  rw [takenFor_singleton, text_withId, strandFrom_tag hw, putFor_singleton, if_pos rfl]
  intro j _ hj
  rw [putFor_singleton, if_neg (Ne.symm hj)]

end Writing

section Written

open Piece

variable {o : Options} {pieces : List Piece} {offset : Nat}

theorem within_tag (w : WrittenTag) (offset : Nat) : (w.tag offset).Within (offset + 1) (offset + w.text.length) := by
  refine ⟨Nat.le_refl _, (chained_attributes (offset + 1 + w.name.length) w.parts).mono_right ?_⟩
  simp only [WrittenTag.text, List.length_cons, List.length_append]
  omega

theorem within_of_mem_placed {t : Tag} (h : t ∈ placed offset pieces) :
    t.Within (offset + 1) (offset + (textOf pieces).length) := by
  induction pieces generalizing offset with
  | nil => cases h
  | cons piece pieces ih =>
      rw [textOf, List.flatMap_cons, List.length_append, ← Nat.add_assoc]
      cases piece with
      | char c => exact (ih h).mono (by omega) (Nat.le_refl _)
      | tag w =>
          rcases List.mem_cons.mp h with rfl | h
          · exact (within_tag w offset).mono (Nat.le_refl _) (Nat.le_add_right _ _)
          · exact (ih h).mono (by omega) (Nat.le_refl _)

theorem takenFor_cons (t : Tag) (id : String) (given : List (Tag × String)) (i : Nat) :
    takenFor o ((t, id) :: given) i = (takenBy o t.attributes i || takenFor o given i) := rfl

theorem putFor_cons (t : Tag) (id : String) (given : List (Tag × String)) (i : Nat) :
    putFor o ((t, id) :: given) i = putFor o [(t, id)] i ++ putFor o given i := putFor_append [(t, id)] given

theorem unchanged_before {entries : List (Tag × Option String)} (h : entries.map Prod.fst = placed offset pieces)
    {j : Nat} (hj : j ≤ offset) :
    takenFor o (Generator.provided entries) j = false ∧ putFor o (Generator.provided entries) j = [] := by
  have hwithin : ∀ e ∈ Generator.provided entries,
      e.1.Within (offset + 1) (offset + (textOf pieces).length) := fun e he =>
    within_of_mem_placed (h ▸ (Generator.map_fst_provided_sublist entries).subset (List.mem_map_of_mem he))
  have hbefore : ∀ e ∈ Generator.provided entries, j < e.1.nameStop ∨ e.1.place < j := by
    intro e he
    have hname := (hwithin e he).1
    left
    omega
  have hwhole := fun e he => (hwithin e he).mono (Nat.zero_le _) (Nat.le_refl _)
  exact ⟨takenFor_eq_false hwhole hbefore, putFor_eq_nil hwhole hbefore⟩

theorem unchanged_behind (w : WrittenTag) (offset : Nat) (id : String) {j : Nat} (hj : offset + w.text.length ≤ j) :
    takenBy o (w.tag offset).attributes j = false ∧ putFor o [(w.tag offset, id)] (j + 1) = [] := by
  have hwithin := within_tag w offset
  refine ⟨takenBy_eq_false hwithin.2 (.inr hj), ?_⟩
  have hplace := hwithin.newPlace_bounds o
  have hend := hwithin.place_bounds
  rw [putFor_singleton, if_neg (by omega)]

/-- A program in which start tags get ids, place by place. -/
theorem strandFrom_withIds (o : Options) (hpieces : ∀ w, .tag w ∈ pieces → ∀ p ∈ w.parts, p.text ≠ [])
    {entries : List (Tag × Option String)} (h : entries.map Prod.fst = placed offset pieces) :
    Text.strandFrom (putFor o (Generator.provided entries)) (takenFor o (Generator.provided entries)) offset
      (textOf pieces) = textOf (withIds o pieces (entries.map Prod.snd)) := by
  induction pieces generalizing offset entries with
  | nil => rfl
  | cons piece pieces ih =>
      have hlater : ∀ w, .tag w ∈ pieces → ∀ p ∈ w.parts, p.text ≠ [] := fun w hw =>
        hpieces w (List.mem_cons_of_mem _ hw)
      cases piece with
      | char c =>
          replace h : entries.map Prod.fst = placed (offset + 1) pieces := h
          have hsame := unchanged_before (o := o) h (Nat.le_refl (offset + 1))
          have hhere := unchanged_before (o := o) h (Nat.le_succ offset)
          change Text.strandFrom _ _ offset (c :: textOf pieces) = c :: textOf (withIds o pieces (entries.map Prod.snd))
          rw [Text.strandFrom, hhere.1, hsame.2, ih hlater h]
          rfl
      | tag w =>
          cases entries with
          | nil => cases h
          | cons entry entries =>
              obtain ⟨t, given⟩ := entry
              obtain ⟨rfl, hothers⟩ := List.cons.inj h
              have hbefore {j : Nat} (hj : j < offset + w.text.length) :=
                unchanged_before (o := o) hothers (j := j) (by omega)
              have hbehind {j : Nat} (hj : j < offset + w.text.length) :=
                unchanged_before (o := o) hothers (j := j + 1) (by omega)
              change Text.strandFrom _ _ offset (w.text ++ textOf pieces) =
                (given.elim w (w.withId o)).text ++ textOf (withIds o pieces (entries.map Prod.snd))
              rw [Text.strandFrom_append]
              cases given with
              | none =>
                  rw [Generator.provided_cons_none, ih hlater hothers,
                    Text.strandFrom_eq false fun j _ hj => ⟨(hbefore hj).1, (hbehind hj).2⟩]
                  rfl
              | some id =>
                  rw [Generator.provided_cons_some, ← ih hlater hothers, Option.elim_some,
                    ← strandFrom_withId o id (hpieces w List.mem_cons_self) offset]
                  congr 1
                  · refine Text.strandFrom_congr fun j _ hj => ?_
                    rw [takenFor_cons, putFor_cons, (hbefore hj).1, (hbehind hj).2, takenFor_singleton, Bool.or_false,
                      List.append_nil]
                    exact ⟨rfl, rfl⟩
                  · refine Text.strandFrom_congr fun j hj _ => ?_
                    have hown := unchanged_behind (o := o) w offset id hj
                    rw [takenFor_cons, putFor_cons, hown.1, hown.2, Bool.false_or, List.nil_append]
                    exact ⟨rfl, rfl⟩

end Written

end MarkupIds.Jsx
