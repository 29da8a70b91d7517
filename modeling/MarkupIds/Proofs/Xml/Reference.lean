import MarkupIds.Proofs.Xml.Reading
import MarkupIds.Xml.Reference

/-! References and values pass the text that they are written in, and the texts of entities pass nothing
of it. -/

namespace MarkupIds.Xml

/-- A run without brackets and quotes. -/
def Quiet (run : List Char) : Prop := ∀ c ∈ run, c ≠ '<' ∧ c ≠ '"' ∧ c ≠ '\''

theorem Quiet.append {a b : List Char} (ha : Quiet a) (hb : Quiet b) : Quiet (a ++ b) :=
  fun c hc => (List.mem_append.mp hc).elim (ha c) (hb c)

theorem Quiet.of_all {p : Char → Bool} {run : List Char} (hall : ∀ c ∈ run, p c = true)
    (hopen : p '<' = false) (hdouble : p '"' = false) (hsingle : p '\'' = false) : Quiet run := by
  intro c hc
  have hp := hall c hc
  refine ⟨?_, ?_, ?_⟩
  · rintro rfl
    exact absurd hp (by simp [hopen])
  · rintro rfl
    exact absurd hp (by simp [hdouble])
  · rintro rfl
    exact absurd hp (by simp [hsingle])

namespace Reading

variable {α : Type} {s t : State}

namespace Keeps

theorem report (cause : Cause) : Keeps (Reading.report cause) := (Keeps.fail cause).ite (Keeps.note cause)

theorem expandingName {x : Reading α} (name : List Char) (hx : Keeps x) : Keeps (expandingName name x) := by
  unfold Reading.expandingName
  refine Keeps.state.bind fun st => ?_
  have hrest : Keeps (do
      modify fun s => { s with expanding := name :: s.expanding }
      let a ← x
      modify fun s => { s with expanding := s.expanding.drop 1 }
      return a : Reading α) :=
    (Keeps.change (f := fun s => { s with expanding := name :: s.expanding }) fun _ => rfl).bind fun _ =>
      hx.bind fun a =>
        (Keeps.change (f := fun s => { s with expanding := s.expanding.drop 1 }) fun _ => rfl).bind fun _ => .pure a
  dsimp only
  split
  · exact (Keeps.fail _).bind fun _ => hrest
  · exact hrest

theorem characterOf (inString : Bool) (code : Nat) : Keeps (Reading.characterOf inString code) := by
  unfold Reading.characterOf
  dsimp only
  have hrest : Keeps (if (Char.ofNat code).toNat == code && isXmlChar (Char.ofNat code) then
      Pure.pure (Char.ofNat code) else Reading.fail (.codeInvalid inString code)) := (Keeps.pure _).ite (.fail _)
  exact ((Keeps.fail _).bind fun _ => hrest).ite hrest

theorem lookUp (inValue : Bool) (name : List Char) : Keeps (Reading.lookUp inValue name) := by
  unfold Reading.lookUp
  refine Keeps.docType.bind fun d => ?_
  split
  · exact (Keeps.report _).bind fun _ => .pure none
  · split
    · exact .pure _
    · exact .fail _
    · dsimp only
      exact ((Keeps.fail _).bind fun _ => .pure _).ite (.pure _)

theorem referenceWithin (s : List Char) : Keeps (Reading.referenceWithin s) := by
  unfold Reading.referenceWithin
  split
  · dsimp only
    split
    · exact (Keeps.characterOf true _).bind fun c => .pure _
    · exact .fail _
  · split
    · split
      · exact .pure _
      · exact .fail _
    · exact .fail _
  · exact .fail _

/-- The text of an entity is read beside the text of the document. -/
theorem entityValue (owner : List Char) (depth fuel : Nat) (s : List Char) :
    Keeps (Reading.entityValue owner depth fuel s) := by
  fun_induction Reading.entityValue owner depth fuel s with
  | case1 => exact .fail _
  | case2 => exact .pure _
  | case3 => exact .pure _
  | case4 => exact .fail _
  | case5 owner depth fuel c s hbracket hamp ihtext ihrest =>
      refine (Keeps.referenceWithin s).bind fun found => ?_
      obtain ⟨found, rest⟩ := found
      have hgo (value : List Char) : Keeps (do
          let more ← Reading.entityValue owner (depth + 1) fuel rest
          return value ++ more) := (ihtext rest).bind fun more => .pure _
      cases found with
      | inl c => exact (Keeps.pure [c]).bind hgo
      | inr name =>
          dsimp only
          split
          next => exact (Keeps.pure _).bind hgo
          next =>
            refine (Keeps.lookUp true name).bind fun declared => ?_
            split
            next => exact (Keeps.pure []).bind hgo
            next e =>
              split
              next => exact (Keeps.expandingName name (ihrest name _)).bind hgo
              next => exact (Keeps.pure []).bind hgo
  | case6 owner depth fuel c s hbracket hamp ihrest => exact ihrest.bind fun rest => .pure _

end Keeps

theorem quiet_cons {c : Char} {run : List Char} (hc : c ≠ '<' ∧ c ≠ '"' ∧ c ≠ '\'') (hrun : Quiet run) :
    Quiet (c :: run) := List.forall_mem_cons.mpr ⟨hc, hrun⟩

theorem quiet_semicolon : Quiet [';'] := quiet_cons (by decide) (List.forall_mem_nil _)

theorem codeDigits_eq_ok {code : Nat} (h : codeDigits s = .ok (code, t)) :
    ∃ run, s.rest = run ++ ';' :: (t.advance 1).rest ∧ t.rest = ';' :: (t.advance 1).rest ∧ Quiet run := by
  unfold codeDigits at h
  obtain ⟨isHex, m, hmark, h⟩ := bind_eq_ok.mp h
  obtain ⟨digits, m', hdigits, h⟩ := bind_eq_ok.mp h
  rw [bind_peek_apply] at h
  have hran := ran_takeWhile hdigits
  generalize hhead : m'.rest.head? = head at h
  split at h
  next =>
    obtain ⟨rfl, rfl⟩ := pure_eq_ok.mp h
    have hsemicolon : m'.rest = ';' :: (m'.advance 1).rest := by
      rw [State.rest_advance]
      exact cons_of_head? hhead
    cases isHex with
    | true =>
        refine ⟨'x' :: digits, ?_, hsemicolon, quiet_cons (by decide) (.of_all hran.all ?_ ?_ ?_)⟩
        · rw [accept_true hmark, hran.text_eq, ← hsemicolon]
          rfl
        all_goals decide
    | false =>
        refine ⟨digits, ?_, hsemicolon, .of_all hran.all ?_ ?_ ?_⟩
        · rw [← (accept_false hmark).2, hran.text_eq, ← hsemicolon]
        all_goals decide
  next => exact absurd h fail_eq_ok

/-- A reference is passed as it is written. -/
theorem characterReference_eq_ok {c : Char} {r : List Char} (h : characterReference s = .ok (c, t))
    (hs : s.rest = '&' :: '#' :: r) : ∃ run, s.rest = run ++ t.rest ∧ run ≠ [] ∧ Quiet run := by
  unfold characterReference at h
  rw [bind_skip_apply] at h
  obtain ⟨code, m, hdigits, h⟩ := bind_eq_ok.mp h
  rw [bind_skip_apply] at h
  obtain ⟨run, hrun, -, hquiet⟩ := codeDigits_eq_ok hdigits
  have hkept := Keeps.characterOf _ _ _ _ _ h
  refine ⟨'&' :: '#' :: (run ++ [';']), ?_, List.cons_ne_nil _ _, ?_⟩
  · rw [State.rest_advance, hs] at hrun
    rw [hs, hkept, show r = _ from hrun]
    simp
  · exact quiet_cons (by decide) (quiet_cons (by decide) (hquiet.append quiet_semicolon))

theorem entityReference_eq_ok {n r : List Char} (h : entityReference s = .ok (n, t)) (hs : s.rest = '&' :: r) :
    ∃ run, s.rest = run ++ t.rest ∧ run ≠ [] ∧ Quiet run := by
  unfold entityReference at h
  rw [bind_skip_apply] at h
  obtain ⟨n', m, hname, h⟩ := bind_eq_ok.mp h
  obtain ⟨hrest, hall⟩ := ran_name hname
  have hend {k : State} (h : (do
      expect [';'] .referenceNotClosed
      return n' : Reading (List Char)) k = .ok (n, t)) : k.rest = ';' :: t.rest := by
    obtain ⟨u, k', hexpect, h⟩ := bind_eq_ok.mp h
    obtain ⟨-, rfl⟩ := pure_eq_ok.mp h
    exact expect_eq_ok hexpect
  have hsplit : m.rest = ';' :: t.rest := by
    dsimp only at h
    split at h
    · exact absurd h fail_eq_ok
    · exact hend h
  refine ⟨'&' :: (n' ++ [';']), ?_, List.cons_ne_nil _ _, ?_⟩
  · rw [State.rest_advance, hs] at hrest
    rw [hs, show r = _ from hrest, hsplit]
    simp
  · exact quiet_cons (by decide) ((Quiet.of_all hall (by decide) (by decide) (by decide)).append quiet_semicolon)

theorem valueReference_eq_ok {v r : List Char} (h : valueReference s = .ok (v, t)) (hs : s.rest = '&' :: r) :
    ∃ run, s.rest = run ++ t.rest ∧ run ≠ [] ∧ Quiet run := by
  unfold valueReference at h
  rw [bind_remaining_apply] at h
  generalize hrest : s.rest = rest at h
  split at h
  next =>
    obtain ⟨c, m, hcharacter, h⟩ := bind_eq_ok.mp h
    obtain ⟨-, rfl⟩ := pure_eq_ok.mp h
    rw [← hrest]
    exact characterReference_eq_ok hcharacter hrest
  next =>
    obtain ⟨n, m, hentity, h⟩ := bind_eq_ok.mp h
    suffices hkept : t.rest = m.rest by
      rw [← hrest, hkept]
      exact entityReference_eq_ok hentity hs
    cases hplain : plainEntity? n with
    | some c =>
      simp only [hplain] at h
      rw [(pure_eq_ok.mp h).2]
    | none =>
      simp only [hplain] at h
      refine Keeps.bind (Keeps.lookUp true n) (fun declared => ?_) _ _ _ h
      split
      next => exact .pure _
      next e =>
        split
        next => exact Keeps.docType.bind fun d => Keeps.expandingName n (Keeps.entityValue n _ _ _)
        next => exact .pure _

/-- A value ends at the first quote that can close it. -/
theorem valueEnd_eq_ok {quote : Char} (hquote : quote = '"' ∨ quote = '\'') {fuel : Nat} {v : List Char}
    (h : valueEnd quote fuel s = .ok (v, t)) : ∃ run, s.rest = run ++ quote :: t.rest ∧ quote ∉ run := by
  induction fuel generalizing s v with
  | zero => exact absurd h fail_eq_ok
  | succ fuel ih =>
      rw [valueEnd, bind_peek_apply] at h
      generalize hhead : s.rest.head? = head at h
      split at h
      next => exact absurd h fail_eq_ok
      next c =>
        have hrest := cons_of_head? hhead
        split at h
        next hclose =>
          rw [bind_skip_apply] at h
          obtain ⟨rfl, rfl⟩ := pure_eq_ok.mp h
          refine ⟨[], ?_, List.not_mem_nil⟩
          rw [State.rest_advance, hrest, beq_iff_eq.mp hclose]
          rfl
        next hclose =>
          split at h
          next => exact absurd h fail_eq_ok
          split at h
          next hamp =>
            obtain ⟨value, m, hreference, h⟩ := bind_eq_ok.mp h
            obtain ⟨more, m', hmore, h⟩ := bind_eq_ok.mp h
            obtain ⟨-, rfl⟩ := pure_eq_ok.mp h
            obtain ⟨run, hrun, hnot⟩ := ih hmore
            rw [beq_iff_eq.mp hamp] at hrest
            obtain ⟨reference, hreference, -, hquiet⟩ := valueReference_eq_ok hreference hrest
            refine ⟨reference ++ run, by rw [hreference, hrun, List.append_assoc], fun hmem => ?_⟩
            obtain hmem | hmem := List.mem_append.mp hmem
            · obtain ⟨-, hdouble, hsingle⟩ := hquiet quote hmem
              exact hquote.elim hdouble hsingle
            · exact hnot hmem
          next =>
            split at h
            next =>
              rw [bind_skip_apply] at h
              obtain ⟨more, m', hmore, h⟩ := bind_eq_ok.mp h
              obtain ⟨-, rfl⟩ := pure_eq_ok.mp h
              obtain ⟨run, hrun, hnot⟩ := ih hmore
              rw [State.rest_advance] at hrun
              refine ⟨c :: run, by rw [hrest, hrun, List.cons_append], ?_⟩
              rw [List.mem_cons, not_or]
              exact ⟨fun heq => hclose (by simp [heq]), hnot⟩
            next => exact absurd h fail_eq_ok

/-- A value is passed with its quotes. -/
theorem value_eq_ok {v : List Char} (h : value s = .ok (v, t)) :
    ∃ quote run, (quote = '"' ∨ quote = '\'') ∧ s.rest = quote :: (run ++ quote :: t.rest) ∧ quote ∉ run := by
  unfold value at h
  rw [bind_peek_apply] at h
  generalize hhead : s.rest.head? = head at h
  split at h
  next quote =>
    split at h
    next hquote =>
      rw [bind_skip_apply, bind_remaining_apply] at h
      have hmark : quote = '"' ∨ quote = '\'' := by simpa using hquote
      obtain ⟨run, hrun, hnot⟩ := valueEnd_eq_ok hmark h
      rw [State.rest_advance] at hrun
      exact ⟨quote, run, hmark, by rw [← hrun]; exact cons_of_head? hhead, hnot⟩
    next => exact absurd h fail_eq_ok
  next => exact absurd h fail_eq_ok

end Reading

end MarkupIds.Xml
