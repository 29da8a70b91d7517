import MarkupIds.Proofs.Html.Reading
import MarkupIds.Html.Tree

/-! The first pass over a document, construct by construct. Where start tags stand for themselves, some
of them can be written anew, and the pass reads all others as before. -/

namespace MarkupIds.Html

open MarkupIds.Text (isBlank isLetter Position)

/-- The raw content that a document may be in. -/
def IsRawState (raw : Option String) : Prop := ∀ name, raw = some name → isRaw name = true

theorem isRawState_none : IsRawState none := fun _ h => by cases h

theorem isRawState_rawAfter {raw : Option String} (h : IsRawState raw) (tokens : List Token) :
    IsRawState (rawAfter raw tokens) := by
  induction tokens generalizing raw with
  | nil => exact h
  | cons token tokens ih =>
      cases token with
      | opening name attributes closed =>
          rw [rawAfter]
          refine ih ?_
          split
          next hraw =>
            intro name' hname
            cases hname
            exact (Bool.and_eq_true_iff.mp hraw).2
          next => exact h
      | closing name => exact ih isRawState_none
      | text content => exact ih h
      | special kind content => exact ih h

theorem count_eq_of_expanded {written : List (String × List Char)} {make : List (String × String) → List Token}
    {tokens : List Token} {n count : Nat} (h : expanded written make n = .read tokens count) : count = n := by
  unfold expanded at h
  split at h
  next => cases h
  next => exact (Reading.read.inj h).2.symm

theorem readOpening_count {s : List Char} {tokens : List Token} {count : Nat} (hs : s ≠ [])
    (h : readOpening s = .read tokens count) : 0 < count ∧ count ≤ s.length := by
  have hlength := List.length_pos_iff.mpr hs
  unfold readOpening at h
  rw [List.span_eq_takeWhile_dropWhile] at h
  dsimp only at h
  generalize lastBefore s _ _ = before at h
  have hrest := ((attributesFrom_suffix s.length before _).trans ((skipGap_suffix _).trans
    (List.dropWhile_suffix (l := s.drop 1) isNameChar))).length_le
  rw [List.length_drop] at hrest
  split at h
  next r hr =>
    rw [count_eq_of_expanded h]
    rw [hr, List.length_cons] at hrest ⊢
    omega
  next r hr =>
    rw [count_eq_of_expanded h]
    rw [hr, List.length_cons, List.length_cons] at hrest ⊢
    omega
  next => cases h
  next c r _ _ hr =>
    split at h
    next => cases h
    next =>
      rw [count_eq_of_expanded h]
      rw [hr, List.length_cons] at hrest ⊢
      omega

/-- A start tag is read as such wherever it stands. -/
theorem readMarkup_startTag {s : List Char} (h : startsTag s = true) : readMarkup s = readOpening s := by
  unfold startsTag at h
  split at h
  next c r =>
    unfold readMarkup
    split
    next heq => cases heq; cases h
    next heq => cases heq; cases h
    next heq => cases heq; cases h
    next heq => cases heq; cases h
    next heq =>
      cases heq
      rw [if_pos h]
    next hne => exact absurd rfl (hne c r)
  next => cases h

theorem inContent_bracket (lastPass : Bool) {s : List Char} (h : s.head? = some '<') :
    inContent lastPass s = atBracket lastPass s := by
  cases s with
  | nil => cases h
  | cons c s =>
      cases h
      rfl

theorem head?_of_startsTag {s : List Char} (h : startsTag s = true) : s.head? = some '<' := by
  unfold startsTag at h
  split at h
  · rfl
  · cases h

theorem findingAt_startTag {s : List Char} (lastPass : Bool) (h : startsTag s = true) {tokens : List Token}
    {count : Nat} (hread : readOpening s = .read tokens count) :
    findingAt lastPass none s = .goOn tokens count := by
  rw [findingAt, inContent_bracket lastPass (head?_of_startsTag h), atBracket, readMarkup_startTag h, hread]

/-- What the first pass finds at a start tag is what is read there. -/
theorem readOpening_of_findingAt {s : List Char} (h : startsTag s = true) {tokens : List Token}
    {count : Nat} (hfound : findingAt false none s = .goOn tokens count) :
    readOpening s = .read tokens count := by
  rw [findingAt, inContent_bracket false (head?_of_startsTag h), atBracket, readMarkup_startTag h] at hfound
  split at hfound
  next hread =>
    cases hfound
    exact hread
  next => cases hfound
  next => cases hfound

theorem findingAt_count {raw : Option String} (hraw : IsRawState raw) {s : List Char}
    {tokens : List Token} {count : Nat} (h : findingAt false raw s = .goOn tokens count) :
    0 < count ∧ count ≤ s.length := by
  by_cases htag : raw = none ∧ startsTag s = true
  · obtain ⟨rfl, htag⟩ := htag
    refine readOpening_count ?_ (readOpening_of_findingAt htag h)
    rintro rfl
    cases htag
  · obtain ⟨hpos, hle, -⟩ := findingAt_alone hraw h fun hnone => by
      rw [Bool.eq_false_iff]
      exact fun hs => htag ⟨hnone, hs⟩
    exact ⟨hpos, hle⟩

theorem unfinishedLength_pos (s : List Char) : 0 < unfinishedLength s := by
  unfold unfinishedLength
  split
  · exact Nat.succ_pos _
  · split <;> exact Nat.succ_pos _

theorem atAmpersand_lastPass {s : List Char} {tokens : List Token} {count : Nat}
    (h : atAmpersand true s = .goOn tokens count) : atAmpersand false s = .goOn tokens count := by
  unfold atAmpersand at h ⊢
  split at h
  next =>
    split at h
    next => exact h
    next => split at h <;> cases h
  next =>
    split at h
    next => exact h
    next =>
      split at h
      next => cases h
      next =>
        split at h
        next => cases h
        next hletter => simpa [hletter] using h
      next => exact h

/-- The second pass finds what the first one does, or takes a construct that is cut short for text. -/
theorem findingAt_lastPass {raw : Option String} {s : List Char} {tokens : List Token} {count : Nat}
    (h : findingAt true raw s = .goOn tokens count) :
    findingAt false raw s = .goOn tokens count ∨ (s ≠ [] ∧ 0 < count) := by
  cases raw with
  | some name => exact .inl h
  | none =>
      unfold findingAt inContent at h ⊢
      dsimp only at h ⊢
      split at h
      next => cases h
      next r =>
        rw [atBracket] at h
        split at h
        next hread =>
          cases h
          left
          rw [atBracket, hread]
        next => cases h
        next =>
          rw [if_pos rfl] at h
          cases h
          exact .inr ⟨List.cons_ne_nil _ _, unfinishedLength_pos _⟩
      next => exact .inl (atAmpersand_lastPass h)
      next => exact .inl h

/-- Every finding takes something off the text. -/
theorem length_drop_lt {lastPass : Bool} {raw : Option String} (hraw : IsRawState raw) {s : List Char}
    {tokens : List Token} {count : Nat} (h : findingAt lastPass raw s = .goOn tokens count) :
    (s.drop count).length < s.length := by
  have hfirst (hfound : findingAt false raw s = .goOn tokens count) :
      (s.drop count).length < s.length := by
    obtain ⟨hpos, hle⟩ := findingAt_count hraw hfound
    rw [List.length_drop]
    omega
  cases lastPass with
  | false => exact hfirst h
  | true =>
      obtain hfound | ⟨hs, hpos⟩ := findingAt_lastPass h
      · exact hfirst hfound
      · have hlength := List.length_pos_iff.mpr hs
        rw [List.length_drop]
        omega

/-- The tokens alone. -/
def contents (found : Except Refusal (List (Position × Token))) : Except Refusal (List Token) :=
  found.map (List.map Prod.snd)

theorem contents_map_append (tokens : List Token) (p : Position)
    (found : Except Refusal (List (Position × Token))) :
    contents (found.map fun rest => tokens.map (p, ·) ++ rest) =
      (contents found).map (tokens ++ ·) := by
  cases found with
  | error refusal => rfl
  | ok rest =>
      simp only [contents, Except.map, List.map_append, List.map_map]
      congr 2
      exact List.map_id tokens

/-- How many findings a pass over a text and the pass behind it can take. -/
def enough (lastPass : Bool) (s : List Char) : Nat := s.length + if lastPass then 1 else 2

theorem enough_pos (lastPass : Bool) (s : List Char) : 0 < enough lastPass s := by
  cases lastPass <;> exact Nat.succ_pos _

/-- With enough fuel, neither its amount nor the place of the text makes a difference to its tokens. -/
theorem contents_scanFrom {fuel fuel' : Nat} {lastPass : Bool} {raw : Option String} (hraw : IsRawState raw)
    {s : List Char} (p p' : Position) (hfuel : enough lastPass s ≤ fuel)
    (hfuel' : enough lastPass s ≤ fuel') :
    contents (scanFrom fuel lastPass raw p s) = contents (scanFrom fuel' lastPass raw p' s) := by
  induction fuel generalizing fuel' lastPass raw s p p' with
  | zero => exact absurd hfuel (Nat.not_le_of_lt (enough_pos lastPass s))
  | succ fuel ih =>
      cases fuel' with
      | zero => exact absurd hfuel' (Nat.not_le_of_lt (enough_pos lastPass s))
      | succ fuel' =>
          rw [scanFrom, scanFrom]
          cases hfound : findingAt lastPass raw s with
          | refused r => rfl
          | goOn tokens count =>
              have hlt := length_drop_lt hraw hfound
              dsimp only
              rw [contents_map_append, contents_map_append]
              refine congrArg _ (ih (isRawState_rawAfter hraw tokens) _ _ ?_ ?_)
              · unfold enough at hfuel ⊢
                omega
              · unfold enough at hfuel' ⊢
                omega
          | stop tokens count =>
              dsimp only
              cases lastPass with
              | true =>
                  simp only [if_true, contents, Except.map, List.map_append, List.map_map]
                  congr 2
                  split <;> rfl
              | false =>
                  simp only [Bool.false_eq_true, if_false]
                  rw [contents_map_append, contents_map_append]
                  have hle : (s.drop count).length ≤ s.length := by
                    rw [List.length_drop]
                    omega
                  refine congrArg _ (ih hraw _ _ ?_ ?_)
                  · simp only [enough, Bool.false_eq_true, if_false, if_true] at hfuel ⊢
                    omega
                  · simp only [enough, Bool.false_eq_true, if_false, if_true] at hfuel' ⊢
                    omega

/-- A construct that the first pass goes through: its text and its tokens. -/
structure Construct where
  text : List Char
  tokens : List Token
  /-- It is a start tag. -/
  opens : Bool
deriving DecidableEq, Repr

namespace Construct

/-- A start tag that is read the same whatever follows it. -/
def StandsAlone (c : Construct) : Prop :=
  ∀ t, readOpening (c.text ++ t) = .read c.tokens c.text.length

/-- The text of some constructs. -/
def textOf (cs : List Construct) : List Char := cs.flatMap text

/-- The tokens of some constructs from a place on, each at the place where its construct starts. -/
def placed : Position → List Construct → List (Position × Token)
  | _, [] => []
  | p, c :: cs => c.tokens.map (p, ·) ++ placed (p.advance c.text) cs

/-- A start tag in the place of another, after which the pass goes on as it does after that one. -/
structure Recast (c c' : Construct) : Prop where
  opens : c.opens = true
  opens_new : c'.opens = true
  starts : startsTag c.text = true
  starts_new : startsTag c'.text = true
  alone_new : c'.StandsAlone
  raw_eq : ∀ raw, rawAfter raw c'.tokens = rawAfter raw c.tokens

/-- A construct that is kept, or a start tag that is written anew. -/
def Alters (c c' : Construct) : Prop := c' = c ∨ Recast c c'

end Construct

/-- The constructs of a text that may be raw content. -/
def constructsFrom (fuel : Nat) (raw : Option String) (s : List Char) : List Construct :=
  match fuel with
  | 0 => []
  | fuel + 1 =>
    match findingAt false raw s with
    | .goOn tokens count =>
      ⟨s.take count, tokens, raw.isNone && startsTag s⟩ ::
        constructsFrom fuel (rawAfter raw tokens) (s.drop count)
    | _ => []

/-- The constructs of a document up to the first one that is cut short. -/
def constructs (s : List Char) : List Construct := constructsFrom s.length none s

open Construct

/-- A stretch of the first pass, from one text and state to another. -/
inductive FirstPass : Option String → List Char → List Construct → Option String → List Char → Prop where
  | done (raw : Option String) (s : List Char) : FirstPass raw s [] raw s
  | step {raw raw' : Option String} {c : Construct} {s rest : List Char} {cs : List Construct}
      (found : findingAt false raw (c.text ++ s) = .goOn c.tokens c.text.length)
      (opens : c.opens = (raw.isNone && startsTag (c.text ++ s)))
      (more : FirstPass (rawAfter raw c.tokens) s cs raw' rest) :
      FirstPass raw (c.text ++ s) (c :: cs) raw' rest

theorem firstPass_constructsFrom {raw : Option String} (hraw : IsRawState raw) (fuel : Nat)
    (s : List Char) : ∃ raw' rest, FirstPass raw s (constructsFrom fuel raw s) raw' rest := by
  induction fuel generalizing raw s with
  | zero => exact ⟨raw, s, .done raw s⟩
  | succ fuel ih =>
      rw [constructsFrom]
      split
      next tokens count hfound =>
        obtain ⟨-, hle⟩ := findingAt_count hraw hfound
        have hlength : (s.take count).length = count := by
          rw [List.length_take]
          omega
        obtain ⟨raw', rest, hpass⟩ := ih (isRawState_rawAfter hraw tokens) (s.drop count)
        let c : Construct := ⟨s.take count, tokens, raw.isNone && startsTag s⟩
        have hsplit : c.text ++ s.drop count = s := List.take_append_drop count s
        have hstep : FirstPass raw (c.text ++ s.drop count) (c :: _) raw' rest :=
          .step (by rw [hsplit, hlength]; exact hfound) (by rw [hsplit]) hpass
        rw [hsplit] at hstep
        exact ⟨raw', rest, hstep⟩
      next => exact ⟨raw, s, .done raw s⟩

namespace FirstPass

variable {raw raw' : Option String} {s rest : List Char} {cs : List Construct}

theorem text_eq (h : FirstPass raw s cs raw' rest) : s = textOf cs ++ rest := by
  induction h with
  | done => rfl
  | @step raw raw' c s rest cs _ _ _ ih =>
      conv_lhs => rw [ih]
      rw [textOf, textOf, List.flatMap_cons, List.append_assoc]

theorem isRawState (h : FirstPass raw s cs raw' rest) (hraw : IsRawState raw) : IsRawState raw' := by
  induction h with
  | done => exact hraw
  | step _ _ _ ih => exact ih (isRawState_rawAfter hraw _)

theorem length_le (h : FirstPass raw s cs raw' rest) (hraw : IsRawState raw) :
    cs.length + rest.length ≤ s.length := by
  induction h with
  | done => exact Nat.le_of_eq (Nat.zero_add _)
  | step found _ _ ih =>
      have hpos := (findingAt_count hraw found).1
      have hmore := ih (isRawState_rawAfter hraw _)
      rw [List.length_cons, List.length_append]
      omega

/-- The tokens of a text are those of its constructs, each at the place of its construct, and those of
the rest. -/
theorem scanFrom_eq (h : FirstPass raw s cs raw' rest) (fuel : Nat) (p : Position) :
    scanFrom (cs.length + fuel) false raw p s =
      (scanFrom fuel false raw' (p.advance (textOf cs)) rest).map (placed p cs ++ ·) := by
  induction h generalizing p with
  | done raw s =>
      rw [List.length_nil, Nat.zero_add]
      change _ = Except.map _ (scanFrom fuel false raw p s)
      cases scanFrom fuel false raw p s <;> rfl
  | @step raw raw' c s rest cs found _ _ ih =>
      have hfuel : (c :: cs).length + fuel = cs.length + fuel + 1 := by
        rw [List.length_cons]
        omega
      rw [hfuel, scanFrom, found]
      dsimp only
      have htext : textOf (c :: cs) = c.text ++ textOf cs := List.flatMap_cons
      rw [List.drop_left, List.take_left, ih, htext, Position.advance_append]
      cases scanFrom fuel false raw' ((p.advance c.text).advance (textOf cs)) rest with
      | error refusal => rfl
      | ok tokens => simp [Except.map, placed]

end FirstPass

theorem startsTag_append {s t u : List Char} (hs : s ≠ []) (h : t.head? = u.head?) :
    startsTag (s ++ t) = startsTag (s ++ u) := by
  match s with
  | [c] =>
    cases t with
    | nil =>
        cases u with
        | nil => rfl
        | cons d u => cases h
    | cons d t =>
        cases u with
        | nil => cases h
        | cons e u =>
            cases h
            by_cases hc : c = '<'
            · subst hc
              rfl
            · simp [startsTag, hc]
  | c :: d :: s =>
    by_cases hc : c = '<'
    · subst hc
      rfl
    · simp [startsTag, hc]

theorem startsTag_append_of_startsTag {s : List Char} (h : startsTag s = true) (t : List Char) :
    startsTag (s ++ t) = true := by
  unfold startsTag at h
  split at h
  · exact h
  · cases h

namespace Alike

theorem refl (s : List Char) : Alike s s := .inl rfl

theorem head?_eq {s t : List Char} (h : Alike s t) : s.head? = t.head? := by
  obtain rfl | ⟨hhead, -, -⟩ := h
  · rfl
  · exact hhead

theorem append {t u : List Char} (s : List Char) (h : Alike t u) : Alike (s ++ t) (s ++ u) := by
  obtain rfl | ⟨hhead, ht, hu⟩ := h
  · exact .inl rfl
  · refine .inr ⟨?_, List.mem_append_right s ht, List.mem_append_right s hu⟩
    cases s with
    | nil => exact hhead
    | cons c s => rfl

/-- Texts that start with start tags. -/
theorem of_startsTag {s t : List Char} (hs : startsTag s = true) (ht : startsTag t = true) :
    Alike s t := by
  have hhead := head?_of_startsTag hs
  have hhead' := head?_of_startsTag ht
  exact .inr ⟨hhead.trans hhead'.symm, List.mem_of_mem_head? hhead, List.mem_of_mem_head? hhead'⟩

end Alike

namespace FirstPass

variable {raw raw' : Option String} {s rest rest' : List Char} {cs ds : List Construct}

/-- A pass goes through a text in which start tags are written anew as it did before, if those that are
kept stand for themselves. -/
theorem alter (hraw : IsRawState raw) (h : FirstPass raw s cs raw' rest)
    (halone : ∀ c ∈ cs, c.opens = true → c.StandsAlone) (halter : List.Forall₂ Alters cs ds)
    (hrest : Alike rest rest') :
    FirstPass raw (textOf ds ++ rest') ds raw' rest' ∧ Alike s (textOf ds ++ rest') := by
  induction h generalizing ds with
  | done raw s =>
      cases halter
      exact ⟨.done raw rest', hrest⟩
  | @step raw raw' c s rest cs found opens more ih =>
      obtain _ | @⟨_, d, _, ds, hd, halter⟩ := halter
      obtain ⟨hpass, halike⟩ := ih (isRawState_rawAfter hraw _)
        (fun c hc => halone c (List.mem_cons_of_mem _ hc)) halter hrest
      have hsplit : textOf (d :: ds) ++ rest' = d.text ++ (textOf ds ++ rest') := by
        rw [textOf, textOf, List.flatMap_cons, List.append_assoc]
      rw [hsplit]
      have hne : c.text ≠ [] := List.length_pos_iff.mp (findingAt_count hraw found).1
      obtain rfl | hrecast := hd
      · refine ⟨.step ?_ ?_ hpass, halike.append _⟩
        · by_cases hopens : d.opens = true
          · have hnone := opens.symm.trans hopens
            obtain ⟨hraw', hstarts⟩ := Bool.and_eq_true_iff.mp hnone
            obtain rfl := Option.isNone_iff_eq_none.mp hraw'
            refine findingAt_startTag false ?_ (halone d List.mem_cons_self hopens _)
            rw [← startsTag_append hne halike.head?_eq]
            exact hstarts
          · have hother := (findingAt_alone hraw found fun hnone => by
              rw [hnone] at opens
              rw [← Bool.not_eq_true, ← Bool.true_and (startsTag _)]
              exact opens ▸ hopens).2.2 _ (by rw [List.drop_left]; exact halike)
            rw [List.take_left] at hother
            exact hother
        · rw [opens, startsTag_append hne halike.head?_eq]
      · have hnone := opens.symm.trans hrecast.opens
        obtain ⟨hraw', hstarts⟩ := Bool.and_eq_true_iff.mp hnone
        obtain rfl := Option.isNone_iff_eq_none.mp hraw'
        have hstarts' := startsTag_append_of_startsTag hrecast.starts_new (textOf ds ++ rest')
        refine ⟨.step ?_ ?_ (hrecast.raw_eq none ▸ hpass), Alike.of_startsTag hstarts hstarts'⟩
        · exact findingAt_startTag false hstarts' (hrecast.alone_new _)
        · rw [hrecast.opens_new, hstarts']
          rfl

end FirstPass

end MarkupIds.Html
