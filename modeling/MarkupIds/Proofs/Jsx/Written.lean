import MarkupIds.Proofs.Jsx.Rewriting
import MarkupIds.Proofs.Jsx.StartTag

/-! The attribute for an id is read as it is written. -/

namespace MarkupIds
namespace Jsx

open Grammar (Pattern Reached Answers)

open Markup (written)

variable {x : Reached Kind} {rest : List Char}

/-- The parts of the value of an attribute in quotes of a kind. -/
def stringPiece (quote : Char) : Part :=
  Pattern.oneOf
    [Pattern.run1 fun c => !(c == quote || c == '&'), characterReference, .text ['&'] ++ .char fun c => !(c == '#' || c.isAlpha)]

theorem answers_reference_ampersand (hx : x.rest = "&amp;".toList ++ rest) :
    Answers grammar characterReference x (some (x.past "&amp;".toList rest)) := by
  obtain ⟨offset, s, found, flag⟩ := x
  subst hx
  exact ⟨60, rfl⟩

theorem answers_reference_quote (hx : x.rest = "&quot;".toList ++ rest) :
    Answers grammar characterReference x (some (x.past "&quot;".toList rest)) := by
  obtain ⟨offset, s, found, flag⟩ := x
  subst hx
  exact ⟨60, rfl⟩

theorem escapeValue_cons (c : Char) (s : List Char) : escapeValue (c :: s) =
    (if c == '&' then "&amp;".toList else if c == '"' then "&quot;".toList else [c]) ++ escapeValue s := List.flatMap_cons

theorem escapeValue_append (s t : List Char) : escapeValue (s ++ t) = escapeValue s ++ escapeValue t := List.flatMap_append

/-- What stands for itself in a value. -/
def isOrdinary (c : Char) : Bool := !(c == '"' || c == '&')

theorem escapeValue_of_forall {s : List Char} (hs : ∀ c ∈ s, isOrdinary c = true) : escapeValue s = s := by
  induction s with
  | nil => rfl
  | cons c s ih =>
      obtain ⟨hc, hs⟩ := List.forall_mem_cons.mp hs
      obtain ⟨hquote, hand⟩ : (c == '"') = false ∧ (c == '&') = false := by simpa [isOrdinary] using hc
      rw [escapeValue_cons, ih hs, hand, hquote]
      rfl

/-- A value that does not start with what stands for itself starts, once it is escaped, with a reference or its end. -/
theorem head?_escapeValue {s : List Char} (hs : ∀ c, s.head? = some c → isOrdinary c = false) :
    ∀ c, (escapeValue s ++ '"' :: rest).head? = some c → isOrdinary c = false := by
  intro c hc
  cases s with
  | nil =>
      rw [← Option.some.inj hc]
      rfl
  | cons d s =>
      have hd := hs d rfl
      by_cases hand : d = '&'
      · subst hand
        rw [← Option.some.inj hc]
        rfl
      · have hquote : d = '"' := by
          by_contra hquote
          simp [isOrdinary, hand, hquote] at hd
        subst hquote
        rw [← Option.some.inj hc]
        rfl

/-- At the quote no piece of the value starts. -/
theorem answers_stringPieces_end (hx : x.rest = '"' :: rest) : Answers grammar (.many (stringPiece '"')) x (some x) := by
  have htext (literal : List Char) : Answers grammar (.text ('&' :: literal)) x none :=
    answers_text_none (by rw [hx]; exact fun h => absurd (List.cons_prefix_cons.mp h).1 (by decide))
  refine .many_none (.right (.seq_none (.char_none fun c hc => ?_))
    (.right (.seq_none (htext _)) (.seq_none (htext _))))
  rw [hx] at hc
  rw [← Option.some.inj hc]
  rfl

/-- At a reference no piece of ordinary characters starts. -/
theorem answers_stringPiece_reference {name : List Char} (hname : ∃ further, name = '&' :: further)
    (hx : x.rest = name ++ rest) (h : Answers grammar characterReference x (some (x.past name rest))) :
    Answers grammar (stringPiece '"') x (some (x.past name rest)) := by
  obtain ⟨further, rfl⟩ := hname
  refine .right (.seq_none (.char_none fun c hc => ?_)) (.left h)
  rw [hx] at hc
  rw [← Option.some.inj hc]
  rfl

/-- A value that starts with an ordinary character starts with as many of them as there are. -/
theorem exists_ordinary {c : Char} (hc : isOrdinary c = true) (id rest : List Char) :
    ∃ run behind, (∀ d ∈ run, isOrdinary d = true) ∧ behind.length ≤ id.length ∧
      escapeValue (c :: id) = c :: run ++ escapeValue behind ∧
      ∀ d, (escapeValue behind ++ '"' :: rest).head? = some d → isOrdinary d = false := by
  refine ⟨id.takeWhile isOrdinary, id.dropWhile isOrdinary, fun d => List.mem_takeWhile_imp,
    (List.dropWhile_suffix isOrdinary).length_le, ?_, head?_escapeValue fun d hd => ?_⟩
  · have hrun : ∀ d ∈ id.takeWhile isOrdinary, isOrdinary d = true := fun d => List.mem_takeWhile_imp
    conv_lhs => rw [← List.takeWhile_append_dropWhile (p := isOrdinary) (l := id)]
    rw [← List.cons_append, escapeValue_append, escapeValue_of_forall (List.forall_mem_cons.mpr ⟨hc, hrun⟩)]
  · have hnot := List.head?_dropWhile_not isOrdinary id
    rw [hd] at hnot
    simpa using hnot

/-- A value that has been escaped is read up to its quote. -/
theorem answers_escapeValue (id : List Char) (hx : x.rest = escapeValue id ++ '"' :: rest) :
    Answers grammar (.many (stringPiece '"')) x (some (x.past (escapeValue id) ('"' :: rest))) := by
  induction hlength : id.length using Nat.strong_induction_on generalizing id x with
  | h n ih =>
      have hmore {taken s : List Char} (hne : taken ≠ []) (hs : s.length < n)
          (hpiece : Answers grammar (stringPiece '"') x (some (x.past taken (escapeValue s ++ '"' :: rest)))) :
          Answers grammar (.many (stringPiece '"')) x (some (x.past (taken ++ escapeValue s) ('"' :: rest))) := by
        have hrest := ih s.length hs s (x := x.past taken (escapeValue s ++ '"' :: rest)) rfl rfl
        rw [Reached.past_past] at hrest
        refine .many_more hpiece ?_ hrest
        have hpos := List.length_pos_iff.mpr hne
        simp only [Reached.past_offset]
        omega
      cases id with
      | nil =>
          have hself : x.past (escapeValue []) ('"' :: rest) = x := Reached.past_nil hx
          rw [hself]
          exact answers_stringPieces_end hx
      | cons c id =>
          have hless : id.length < n := hlength ▸ Nat.lt_succ_self _
          by_cases hand : c = '&'
          · subst hand
            rw [escapeValue_cons, if_pos (by rfl)] at hx ⊢
            rw [List.append_assoc] at hx
            exact hmore (by simp) hless (answers_stringPiece_reference ⟨_, rfl⟩ hx (answers_reference_ampersand hx))
          by_cases hquote : c = '"'
          · subst hquote
            rw [escapeValue_cons, if_neg (by decide), if_pos (by rfl)] at hx ⊢
            rw [List.append_assoc] at hx
            exact hmore (by simp) hless (answers_stringPiece_reference ⟨_, rfl⟩ hx (answers_reference_quote hx))
          have hc : isOrdinary c = true := by simp [isOrdinary, hand, hquote]
          obtain ⟨run, behind, hrun, hbehind, hsplit, hstop⟩ := exists_ordinary hc id rest
          rw [hsplit] at hx ⊢
          have hx' : x.rest = c :: (run ++ (escapeValue behind ++ '"' :: rest)) := by
            rw [hx]
            simp
          have hfirst := Answers.seq (answers_char (p := isOrdinary) hx' hc) (answers_run rfl hrun hstop)
          rw [Reached.past_past] at hfirst
          exact hmore (List.cons_ne_nil _ _) (Nat.lt_of_le_of_lt hbehind hless) (.left hfirst)

/-- The tree of an escaped value in double quotes that stands at an offset. -/
def valueTree (offset : Nat) (value : List Char) : Grammar.Tree Kind :=
  .branch .string offset (offset + 1 + value.length + 1) [.leaf .fragment (offset + 1) (offset + 1 + value.length) value]

theorem answers_attributeValue (id : List Char) (hx : x.rest = '"' :: (escapeValue id ++ '"' :: rest)) :
    Answers grammar attributeValue x (some (Reached.mk (x.offset + 1 + (escapeValue id).length + 1) rest
      (valueTree x.offset (escapeValue id) :: x.found) x.flag)) := by
  let u : Reached Kind := { x with found := [] }
  have hopens : Answers grammar (.text ['"']) u (some (u.past ['"'] (escapeValue id ++ '"' :: rest))) := answers_text hx
  have hfragment := answers_token .fragment
    (answers_escapeValue (x := u.past ['"'] (escapeValue id ++ '"' :: rest)) id rfl) rfl
  have hstring : Answers grammar (attributeString '"') u (some _) :=
    .seq (.seq hopens hfragment) (answers_text (s := ['"']) rfl)
  have hstop : IsStop x.rest := by
    rw [hx]
    exact .of_cons (by decide) (by decide)
  exact .left (.seq (answers_trivia_here hstop) (Answers.branch Kind.string (.left hstring)))

/-- The attribute for an id is read as it is written. -/
theorem isReadBy_given {attr : List Char} (hattr : IsAttributeName attr) (id : List Char) :
    IsReadBy attributeParts (WrittenPart.given attr (escapeValue id)).body fun parts =>
      nameIn parts = some attr ∧ (stringIn parts).map (·.flatMap writtenText) = some (escapeValue id) ∧
        elementTags parts = [] := by
  intro x rest hx hfound
  let value : List Char := '"' :: (escapeValue id ++ '"' :: rest)
  have hx' : x.rest = attr ++ ([] ++ '=' :: value) := by
    rw [hx]
    simp [WrittenPart.given, WrittenPart.body, value]
  have hclear : Clear [] ('=' :: value) := by
    refine ⟨nofun, .of_cons (by decide) (by decide), fun c hc => ?_⟩
    rw [← Option.some.inj hc]
    decide
  let name : Grammar.Tree Kind := .leaf .attributeName x.offset (x.offset + attr.length) attr
  have hname := answers_token .attributeName (answers_attributeName hattr hx' hclear (by simp)) hx'
  rw [hfound] at hname
  let y : Reached Kind := { x.past attr ('=' :: value) with found := [name] }
  have hequals : Answers grammar (sign "=") y (some (y.past ['='] value)) :=
    .seq (answers_trivia_here (x := y) hclear.stop) (answers_text (s := ['=']) rfl)
  have hall : Answers grammar attributeParts x (some _) :=
    .seq hname (.left (.seq hequals (answers_attributeValue id rfl)))
  have hlength : x.offset + (WrittenPart.given attr (escapeValue id)).body.length =
      x.offset + attr.length + 1 + 1 + (escapeValue id).length + 1 := by
    simp [WrittenPart.given, WrittenPart.body]
    omega
  refine ⟨[name, valueTree (x.offset + attr.length + 1) (escapeValue id)], x.flag, ⟨rfl, ?_, rfl⟩, ?_⟩
  · simp [name, valueTree, stringIn, writtenText]
  · rw [hlength]
    exact hall

theorem WrittenPart.isPlain_given {attr : List Char} (hattr : IsAttributeName attr)
    (hword : attr.takeWhile isNameChar ≠ "extends".toList) (id : List Char) :
    (WrittenPart.given attr (escapeValue id)).IsPlain where
  gap_ne := List.cons_ne_nil _ _
  gap := by
    intro c hc
    rw [List.mem_singleton.mp hc]
    decide
  word := by
    change (attr ++ '=' :: '"' :: (escapeValue id ++ ['"'])).takeWhile isNameChar ≠ _
    rwa [Text.takeWhile_append_of_head fun c hc => by rw [← Option.some.inj hc]; decide]
  readable := by
    obtain ⟨c, s, hs, hc⟩ := exists_of_isAttributeName hattr
    exact ⟨⟨c, _, congrArg (· ++ _) hs, hc⟩, isReadBy_given hattr id⟩

end Jsx
end MarkupIds
