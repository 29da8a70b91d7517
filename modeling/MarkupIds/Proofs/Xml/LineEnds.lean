import MarkupIds.Proofs.Xml.Retoken
import MarkupIds.Xml.Document

/-! The tokens of a text whose line ends are joined before it is read. The carriage returns that go stand
inside of tokens, and the tokens stay where they are. -/

namespace MarkupIds.Xml

open MarkupIds.Text (isBlank after? cutAt cutBy)

section Characters

theorem joinLineEnds_cons {c : Char} (h : c ≠ '\r') (s : List Char) :
    joinLineEnds (c :: s) = c :: joinLineEnds s := by
  rw [joinLineEnds.eq_def]
  split
  next heq => exact absurd (List.cons.inj heq).1 h
  next heq =>
    obtain ⟨rfl, rfl⟩ := List.cons.inj heq
    rfl
  next heq => cases heq

/-- A carriage return goes in front of a line feed and stays in front of all else. -/
theorem joinLineEnds_return (s : List Char) : joinLineEnds ('\r' :: s) =
    if s.head? = some '\n' then joinLineEnds s else '\r' :: joinLineEnds s := by
  cases s with
  | nil => rfl
  | cons c s =>
      by_cases hc : c = '\n'
      · subst hc
        rw [List.head?_cons, if_pos rfl, joinLineEnds, joinLineEnds_cons (by decide : '\n' ≠ '\r')]
      · rw [List.head?_cons, if_neg (by simpa using hc), joinLineEnds.eq_def]
        split
        next heq => exact absurd (List.cons.inj (List.cons.inj heq).2).1 hc
        next heq =>
          obtain ⟨rfl, rfl⟩ := List.cons.inj heq
          rfl
        next heq => cases heq

/-- A character that is part of no line end is the first one afterwards where it was before. -/
theorem joinLineEnds_eq_cons {c : Char} (hreturn : c ≠ '\r') (hfeed : c ≠ '\n') {s u : List Char} :
    joinLineEnds s = c :: u ↔ ∃ v, s = c :: v ∧ joinLineEnds v = u := by
  constructor
  · intro h
    induction s using joinLineEnds.induct with
    | case1 s ih => rw [joinLineEnds] at h; exact absurd (List.cons.inj h).1.symm hfeed
    | case2 d s hs ih =>
        rw [joinLineEnds] at h
        · obtain ⟨rfl, hu⟩ := List.cons.inj h
          exact ⟨s, rfl, hu⟩
        · exact hs
    | case3 => cases h
  · rintro ⟨v, rfl, rfl⟩
    exact joinLineEnds_cons hreturn v

theorem mem_of_mem_joinLineEnds {c : Char} {s : List Char} (h : c ∈ joinLineEnds s) : c ∈ s := by
  induction s using joinLineEnds.induct with
  | case1 s ih =>
      rw [joinLineEnds] at h
      obtain rfl | h := List.mem_cons.mp h
      · simp
      · exact List.mem_cons_of_mem _ (List.mem_cons_of_mem _ (ih h))
  | case2 d s hs ih =>
      rw [joinLineEnds.eq_2 d s hs] at h
      obtain rfl | h := List.mem_cons.mp h
      · exact List.mem_cons_self
      · exact List.mem_cons_of_mem _ (ih h)
  | case3 => exact h

theorem joinLineEnds_ne_nil {s : List Char} (h : s ≠ []) : joinLineEnds s ≠ [] := by
  induction s using joinLineEnds.induct with
  | case1 s ih =>
      rw [joinLineEnds]
      exact List.cons_ne_nil _ _
  | case2 c s hs ih =>
      rw [joinLineEnds.eq_2 c s hs]
      exact List.cons_ne_nil _ _
  | case3 => exact h

/-- Texts between which no line end is parted. -/
def Parts (s t : List Char) : Prop := t.head? = some '\n' → s.getLast? ≠ some '\r'

theorem joinLineEnds_append {s t : List Char} (h : Parts s t) :
    joinLineEnds (s ++ t) = joinLineEnds s ++ joinLineEnds t := by
  induction s using joinLineEnds.induct with
  | case1 s ih =>
      have hrest : Parts s t := by
        intro ht hlast
        refine h ht ?_
        cases s with
        | nil => cases hlast
        | cons c s => rw [List.getLast?_cons_cons, List.getLast?_cons_cons, hlast]
      rw [List.cons_append, List.cons_append, joinLineEnds, joinLineEnds, ih hrest, List.cons_append]
  | case2 c s hs ih =>
      have hrest : Parts s t := by
        intro ht hlast
        refine h ht ?_
        cases s with
        | nil => cases hlast
        | cons d s => rw [List.getLast?_cons_cons, hlast]
      have hfirst : ∀ u, c = '\r' → s ++ t = '\n' :: u → False := by
        rintro u rfl hu
        cases s with
        | nil => exact h (by rw [show t = '\n' :: u from hu]; rfl) rfl
        | cons d s =>
            obtain ⟨rfl, rfl⟩ := List.cons.inj hu
            exact hs s rfl rfl
      rw [List.cons_append, joinLineEnds.eq_2 c (s ++ t) hfirst, joinLineEnds.eq_2 c s hs, ih hrest,
        List.cons_append]
  | case3 => rfl

theorem parts_of_head {c : Char} (hc : c ≠ '\n') (s t : List Char) : Parts s (c :: t) :=
  fun h => absurd (Option.some.inj h) hc

theorem joinLineEnds_eq_self {s : List Char} (h : '\r' ∉ s) : joinLineEnds s = s := by
  induction s with
  | nil => rfl
  | cons c s ih =>
      simp only [List.mem_cons, not_or] at h
      rw [joinLineEnds_cons (Ne.symm h.1), ih h.2]

end Characters

section Marks

/-- A mark that line ends have no part in. -/
def IsSolid (mark : List Char) : Prop := '\r' ∉ mark ∧ '\n' ∉ mark

theorem after?_joinLineEnds {mark : List Char} (hmark : IsSolid mark) (s : List Char) :
    after? mark (joinLineEnds s) = (after? mark s).map joinLineEnds := by
  have hiff (t : List Char) : (∃ r, joinLineEnds s = mark ++ r ∧ r = t) ↔
      ∃ r, s = mark ++ r ∧ joinLineEnds r = t := by
    obtain ⟨hreturn, hfeed⟩ := hmark
    induction mark generalizing s with
    | nil => simp
    | cons c mark ih =>
        simp only [List.mem_cons, not_or] at hreturn hfeed
        have hcons (u : List Char) :=
          joinLineEnds_eq_cons (Ne.symm hreturn.1) (Ne.symm hfeed.1) (s := s) (u := u)
        constructor
        · rintro ⟨r, hr, rfl⟩
          obtain ⟨v, rfl, hv⟩ := (hcons _).mp hr
          obtain ⟨r', hr', hjoin⟩ := (ih v hreturn.2 hfeed.2).mp ⟨r, hv, rfl⟩
          exact ⟨r', by rw [hr']; rfl, hjoin⟩
        · rintro ⟨r, rfl, rfl⟩
          obtain ⟨r', hr', hjoin⟩ := (ih (mark ++ r) hreturn.2 hfeed.2).mpr ⟨r, rfl, rfl⟩
          exact ⟨r', (hcons _).mpr ⟨mark ++ r, rfl, hr'⟩, hjoin⟩
  refine Option.ext fun t => ?_
  rw [Text.after?_eq_some_iff, Option.map_eq_some_iff]
  constructor
  · intro h
    obtain ⟨r, hr, hjoin⟩ := (hiff t).mp ⟨t, h, rfl⟩
    exact ⟨r, Text.after?_eq_some_iff.mpr hr, hjoin⟩
  · rintro ⟨r, hr, hjoin⟩
    obtain ⟨r', hr', rfl⟩ := (hiff t).mpr ⟨r, Text.after?_eq_some_iff.mp hr, hjoin⟩
    exact hr'

theorem cutAt_joinLineEnds {mark : List Char} (hne : mark ≠ []) (hmark : IsSolid mark) (s : List Char) :
    cutAt mark (joinLineEnds s) =
      (cutAt mark s).map fun found => (joinLineEnds found.1, joinLineEnds found.2) := by
  have hafter (s : List Char) := after?_joinLineEnds hmark s
  unfold cutAt
  induction s using joinLineEnds.induct with
  | case1 s ih =>
      have hnone (c : Char) (hc : c = '\r' ∨ c = '\n') (t : List Char) : after? mark (c :: t) = none := by
        cases mark with
        | nil => exact absurd rfl hne
        | cons d mark =>
            have hd : d ≠ c := by
              rintro rfl
              obtain rfl | rfl := hc
              · exact hmark.1 List.mem_cons_self
              · exact hmark.2 List.mem_cons_self
            simp [after?, hd]
      rw [joinLineEnds, cutBy, cutBy, cutBy, hnone _ (.inr rfl), hnone _ (.inl rfl), hnone _ (.inr rfl), ih]
      cases cutBy (after? mark) s with
      | none => rfl
      | some found => simp [joinLineEnds]
  | case2 c s hs ih =>
      have hjoin : joinLineEnds (c :: s) = c :: joinLineEnds s := joinLineEnds.eq_2 c s hs
      have hfirst := hafter (c :: s)
      rw [hjoin] at hfirst ⊢
      rw [cutBy, cutBy, hfirst]
      cases after? mark (c :: s) with
      | some rest => rfl
      | none =>
          rw [Option.map_none]
          dsimp only
          rw [ih]
          cases hcut : cutBy (after? mark) s with
          | none => rfl
          | some found =>
              obtain ⟨before, rest⟩ := found
              have hbefore : joinLineEnds (c :: before) = c :: joinLineEnds before := by
                refine joinLineEnds.eq_2 c before ?_
                rintro u rfl rfl
                obtain ⟨m, hm, -⟩ := Text.cutBy_eq_some_iff.mp hcut
                exact hs _ rfl hm
              simp only [Option.map_some, hbefore]
  | case3 =>
      rw [joinLineEnds, cutBy]
      cases h : after? mark [] with
      | none => rfl
      | some rest =>
          have := Text.after?_eq_some_iff.mp h
          exact absurd (List.append_eq_nil_iff.mp this.symm).1 hne

end Marks

section Tokens

/-- A run without white space, in front of anything. -/
theorem joinLineEnds_solid {s : List Char} (h : ∀ c ∈ s, isBlank c = false) (t : List Char) :
    joinLineEnds (s ++ t) = s ++ joinLineEnds t := by
  have hreturn : '\r' ∉ s := fun hmem => absurd (h _ hmem) (by decide)
  rw [joinLineEnds_append fun _ hlast => hreturn (List.mem_of_getLast? hlast), joinLineEnds_eq_self hreturn]

theorem parts_solid {s t : List Char} (hne : t ≠ []) (h : ∀ c ∈ t, isBlank c = false) (r : List Char) :
    Parts s (t ++ r) := by
  cases t with
  | nil => exact absurd rfl hne
  | cons c t =>
      refine parts_of_head ?_ s _
      rintro rfl
      exact absurd (h _ List.mem_cons_self) (by decide)

namespace WrittenAttribute

/-- The attribute with its line ends joined. -/
def joined (a : WrittenAttribute) : WrittenAttribute :=
  { a with lead := joinLineEnds a.lead, link := joinLineEnds a.link, value := joinLineEnds a.value }

variable {a : WrittenAttribute} (ha : a.Proper)

include ha

theorem Proper.name_solid : ∀ c ∈ a.name, isBlank c = false := fun c hc => isBlank_of_isNameChar (ha.name c hc)

theorem Proper.quote_ne : a.quote ≠ '\n' ∧ a.quote ≠ '\r' := by
  obtain h | h := ha.quote <;> rw [h] <;> decide

theorem Proper.text_joined (s : List Char) : joinLineEnds (a.text ++ s) = a.joined.text ++ joinLineEnds s := by
  have htext (a : WrittenAttribute) (s : List Char) :
      a.text ++ s = a.lead ++ (a.name ++ (a.link ++ a.quote :: (a.value ++ a.quote :: s))) := by
    simp [text]
  rw [htext, htext, joinLineEnds_append (parts_solid ha.name_ne ha.name_solid _),
    joinLineEnds_solid ha.name_solid, joinLineEnds_append (parts_of_head ha.quote_ne.1 _ _),
    joinLineEnds_cons ha.quote_ne.2, joinLineEnds_append (parts_of_head ha.quote_ne.1 _ _),
    joinLineEnds_cons ha.quote_ne.2]
  rfl

theorem Proper.joined : a.joined.Proper := by
  have hlink := ha.link
  obtain ⟨before, behind, hlink, hbefore, hbehind⟩ := hlink
  refine ⟨joinLineEnds_ne_nil ha.lead_ne, fun c hc => ha.lead c (mem_of_mem_joinLineEnds hc), ha.name_ne, ha.name,
    ⟨joinLineEnds before, joinLineEnds behind, ?_, fun c hc => hbefore c (mem_of_mem_joinLineEnds hc),
      fun c hc => hbehind c (mem_of_mem_joinLineEnds hc)⟩, ha.quote,
    fun hmem => ha.value (mem_of_mem_joinLineEnds hmem)⟩
  rw [WrittenAttribute.joined, hlink, joinLineEnds_append (parts_of_head (by decide) _ _),
    joinLineEnds_cons (by decide)]

end WrittenAttribute

namespace StartTag

/-- The tag with its line ends joined. -/
def joined (t : StartTag) : StartTag :=
  { t with attributes := t.attributes.map WrittenAttribute.joined, tail := joinLineEnds t.tail }

variable {t : StartTag} (ht : t.Proper)

include ht

theorem Proper.name_solid : ∀ c ∈ t.name, isBlank c = false := by
  intro c hc
  have hname := ht.name c hc
  simp [isNameChar] at hname
  exact hname.1.1.1.1

theorem Proper.text_joined (s : List Char) : joinLineEnds (t.text ++ s) = t.joined.text ++ joinLineEnds s := by
  have htext (t : StartTag) (s : List Char) :
      t.text ++ s = '<' :: (t.name ++ (t.attributes.flatMap WrittenAttribute.text ++ (t.tail ++ s))) := by
    simp [text]
  have hattributes (attributes : List WrittenAttribute) (h : ∀ a ∈ attributes, a.Proper) (s : List Char) :
      joinLineEnds (attributes.flatMap WrittenAttribute.text ++ s) =
        (attributes.map WrittenAttribute.joined).flatMap WrittenAttribute.text ++ joinLineEnds s := by
    induction attributes with
    | nil => rfl
    | cons a attributes ih =>
        obtain ⟨ha, hrest⟩ := List.forall_mem_cons.mp h
        rw [List.flatMap_cons, List.append_assoc, ha.text_joined, ih hrest, List.map_cons, List.flatMap_cons,
          List.append_assoc]
  have htail : Parts t.tail s := by
    intro _ hlast
    obtain ⟨blanks, -, htail | htail⟩ := ht.tail <;> simp [htail] at hlast
  rw [htext, htext, joinLineEnds_cons (by decide), joinLineEnds_solid ht.name_solid, hattributes _ ht.attributes,
    joinLineEnds_append htail]
  rfl

theorem Proper.joined : t.joined.Proper := by
  obtain ⟨blanks, hblanks, htail⟩ := ht.tail
  refine ⟨ht.name_ne, ht.name, ?_, joinLineEnds blanks,
    fun c hc => hblanks c (mem_of_mem_joinLineEnds hc), ?_⟩
  · intro a ha
    obtain ⟨b, hb, rfl⟩ := List.mem_map.mp ha
    exact (ht.attributes b hb).joined
  · obtain htail | htail := htail
    · left
      rw [StartTag.joined, htail, joinLineEnds_append (parts_of_head (by decide) _ _)]
      rfl
    · right
      rw [StartTag.joined, htail, joinLineEnds_append (parts_of_head (by decide) _ _)]
      rfl

end StartTag

namespace Token

/-- The token with its line ends joined. -/
def joined : Token → Token
  | opening t => opening t.joined
  | closing raw => closing (joinLineEnds raw)
  | other raw => other (joinLineEnds raw)

theorem afterBetween_joined {start mark s rest : List Char} (hstart : IsSolid start) (hne : mark ≠ [])
    (hmark : IsSolid mark) (h : afterBetween start mark s = some rest) :
    afterBetween start mark (joinLineEnds s) = some (joinLineEnds rest) := by
  obtain ⟨r, hr, hcut⟩ := Option.bind_eq_some_iff.mp h
  obtain ⟨⟨content, rest'⟩, hcontent, rfl⟩ := Option.map_eq_some_iff.mp hcut
  unfold afterBetween
  rw [after?_joinLineEnds hstart, hr, Option.map_some, Option.bind_some, cutAt_joinLineEnds hne hmark, hcontent]
  rfl

theorem parts_of_bracket {piece : List Char} (h : piece.getLast? = some '>') (rest : List Char) :
    Parts piece rest := fun _ hlast => by rw [h] at hlast; cases hlast

theorem Aside.solid {start mark : List Char} (h : Aside start mark) :
    IsSolid start ∧ IsSolid (mark ++ ['>']) := by
  unfold IsSolid
  cases h <;> decide

theorem solid_type : ∀ c ∈ "<!DOCTYPE".toList, isBlank c = false := by simp [isBlank]

/-- A token is found in the text with joined line ends where it was before. -/
theorem Found.joined {s rest : List Char} {token : Token} (h : Found s token rest) :
    Found (joinLineEnds s) token.joined (joinLineEnds rest) := by
  cases h with
  | @aside start mark piece rest kind found =>
      obtain ⟨hpiece, u, hu⟩ := afterBetween_piece kind.bracket_not_mem found []
      have hjoined := afterBetween_joined kind.solid.1 (by simp) kind.solid.2 hpiece
      rw [List.append_nil, ← List.append_nil (joinLineEnds piece)] at hjoined
      have hlast : piece.getLast? = some '>' := by
        rw [hu, ← List.append_assoc]
        exact List.getLast?_concat
      rw [joinLineEnds_append (parts_of_bracket hlast rest)]
      exact .aside kind (afterBetween_piece kind.bracket_not_mem hjoined _).1
  | @type body rest plain =>
      have hjoin (rest : List Char) : joinLineEnds ("<!DOCTYPE".toList ++ (body ++ '>' :: rest)) =
          "<!DOCTYPE".toList ++ (joinLineEnds body ++ '>' :: joinLineEnds rest) := by
        rw [joinLineEnds_solid solid_type, joinLineEnds_append (parts_of_head (by decide) _ _),
          joinLineEnds_cons (by decide)]
      rw [Token.joined, hjoin, hjoin]
      exact .type _ fun c hc => plain c (mem_of_mem_joinLineEnds hc)
  | @closing name blanks rest ne named blank =>
      have hsolid : ∀ c ∈ name, isBlank c = false := by
        intro c hc
        have hname := named c hc
        simp [isClosingChar] at hname
        exact hname.1
      have hjoin (rest : List Char) : joinLineEnds ('<' :: '/' :: (name ++ (blanks ++ '>' :: rest))) =
          '<' :: '/' :: (name ++ (joinLineEnds blanks ++ '>' :: joinLineEnds rest)) := by
        rw [joinLineEnds_cons (by decide), joinLineEnds_cons (by decide), joinLineEnds_solid hsolid,
          joinLineEnds_append (parts_of_head (by decide) _ _), joinLineEnds_cons (by decide)]
      rw [Token.joined, hjoin, hjoin]
      exact .closing _ ne named fun c hc => blank c (mem_of_mem_joinLineEnds hc)
  | @opening t rest proper =>
      rw [proper.text_joined]
      exact .opening _ proper.joined
  | @text raw rest ne plain ends =>
      have hparts : Parts raw rest := fun hfeed => absurd (ends _ hfeed) (by decide)
      rw [joinLineEnds_append hparts]
      refine .text (joinLineEnds_ne_nil ne) (fun c hc => plain c (mem_of_mem_joinLineEnds hc)) ?_
      intro c hc
      cases rest with
      | nil => cases hc
      | cons d rest =>
          obtain rfl := ends d rfl
          rw [joinLineEnds_cons (by decide)] at hc
          exact (Option.some.inj hc).symm

end Token

theorem Tokenizes.joined {s : List Char} {tokens : List Token} (h : Tokenizes s tokens) :
    Tokenizes (joinLineEnds s) (tokens.map Token.joined) := by
  induction h with
  | done => exact .done
  | next found more ih => exact .next found.joined ih

end Tokens

end MarkupIds.Xml
