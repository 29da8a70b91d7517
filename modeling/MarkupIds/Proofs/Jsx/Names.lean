import MarkupIds.Proofs.Grammar.Answers
import MarkupIds.Proofs.Jsx.Foreseen

/-! Names of elements and attributes that are read as they are written, and white space around them. -/

namespace MarkupIds

namespace Grammar.Reached

variable {Kind : Type}

/-- What has been reached behind some more characters, in which nothing is found. -/
def past (x : Reached Kind) (taken rest : List Char) : Reached Kind :=
  { x with offset := x.offset + taken.length, rest }

@[simp] theorem past_rest (x : Reached Kind) (taken rest : List Char) : (x.past taken rest).rest = rest := rfl

@[simp] theorem past_found (x : Reached Kind) (taken rest : List Char) : (x.past taken rest).found = x.found := rfl

@[simp] theorem past_offset (x : Reached Kind) (taken rest : List Char) :
    (x.past taken rest).offset = x.offset + taken.length := rfl

@[simp] theorem past_past (x : Reached Kind) (taken rest further behind : List Char) :
    (x.past taken rest).past further behind = x.past (taken ++ further) behind := by
  simp only [past, List.length_append, Nat.add_assoc]

theorem past_nil {x : Reached Kind} {rest : List Char} (hx : x.rest = rest) : x.past [] rest = x := by
  subst hx
  rfl

end Grammar.Reached

namespace Jsx

open Grammar (Pattern Reached Answers)

section Lexical

variable {x : Reached Kind} {blanks rest : List Char}

/-- No white space goes on here, and no comment starts. -/
structure IsStop (s : List Char) : Prop where
  space : ∀ c, s.head? = some c → isSpace c = false
  line : ¬ ['/', '/'] <+: s
  block : ¬ ['/', '*'] <+: s

theorem IsStop.of_cons {c : Char} {s : List Char} (hspace : isSpace c = false) (hc : c ≠ '/') : IsStop (c :: s) where
  space := fun _ hd => Option.some.inj hd ▸ hspace
  line := fun hprefix => hc (List.cons_prefix_cons.mp hprefix).1.symm
  block := fun hprefix => hc (List.cons_prefix_cons.mp hprefix).1.symm

theorem answers_text {s : List Char} (hx : x.rest = s ++ rest) :
    Answers grammar (.text s) x (some (x.past s rest)) := .text hx

theorem answers_text_none {literal : List Char} (h : ¬ literal <+: x.rest) : Answers grammar (.text literal) x none :=
  .text_none (Bool.eq_false_iff.mpr fun hprefix => h (List.isPrefixOf_iff_prefix.mp hprefix))

theorem answers_char {p : Char → Bool} {c : Char} (hx : x.rest = c :: rest) (hc : p c = true) :
    Answers grammar (.char p) x (some (x.past [c] rest)) := .char hx hc

/-- All characters of a class are taken. -/
theorem answers_run {p : Char → Bool} {s : List Char} (hx : x.rest = s ++ rest) (hs : ∀ c ∈ s, p c = true)
    (hrest : ∀ c, rest.head? = some c → p c = false) : Answers grammar (.run p) x (some (x.past s rest)) := by
  have hrun : Answers grammar (.run p) x _ := .run p
  rwa [hx, Text.takeWhile_append_eq hs hrest, Text.dropWhile_append_eq hs hrest] at hrun

/-- A token has the text that is taken. -/
theorem answers_token (kind : Kind) {a : Part} {s : List Char} (ha : Answers grammar a x (some (x.past s rest)))
    (hx : x.rest = s ++ rest) : Answers grammar (.token kind a) x
      (some { x.past s rest with found := .leaf kind x.offset (x.offset + s.length) s :: x.found }) := by
  have htoken := Answers.token kind ha
  have htake : x.rest.take (x.offset + s.length - x.offset) = s := by
    rw [Nat.add_sub_cancel_left, hx, List.take_left]
  rwa [Option.map_some, Reached.past_offset, htake] at htoken

theorem answers_comment_none (h : IsStop x.rest) : Answers grammar comment x none :=
  .right (.seq_none (answers_text_none h.line)) (.seq_none (.seq_none (answers_text_none h.block)))

/-- White space is taken up to where it stops. -/
theorem answers_blanks {a : Part} (ha : ∀ {y : Reached Kind}, IsStop y.rest → Answers grammar a y none)
    (hx : x.rest = blanks ++ rest) (hblanks : ∀ c ∈ blanks, isSpace c = true) (hrest : IsStop rest) :
    Answers grammar (.many (Pattern.run1 isSpace <|> a)) x (some (x.past blanks rest)) := by
  have hstop {y : Reached Kind} (hy : y.rest = rest) :
      Answers grammar (.many (Pattern.run1 isSpace <|> a)) y (some y) := by
    refine .many_none (.right (.seq_none (.char_none ?_)) (ha (hy ▸ hrest)))
    rw [hy]
    exact hrest.space
  cases blanks with
  | nil =>
      rw [List.nil_append] at hx
      rw [Reached.past_nil hx]
      exact hstop hx
  | cons c blanks =>
      obtain ⟨hc, hblanks⟩ := List.forall_mem_cons.mp hblanks
      have hrun := Answers.seq (answers_char hx hc) (answers_run rfl hblanks hrest.space)
      rw [Reached.past_past] at hrun
      refine .many_more (.left hrun) ?_ (hstop rfl)
      simp

theorem answers_trivia (hx : x.rest = blanks ++ rest) (hblanks : ∀ c ∈ blanks, isSpace c = true) (hrest : IsStop rest) :
    Answers grammar trivia x (some (x.past blanks rest)) := answers_blanks answers_comment_none hx hblanks hrest

theorem answers_foundTrivia (hx : x.rest = blanks ++ rest) (hblanks : ∀ c ∈ blanks, isSpace c = true)
    (hrest : IsStop rest) : Answers grammar foundTrivia x (some (x.past blanks rest)) :=
  answers_blanks (fun hy => Answers.token .comment (answers_comment_none hy)) hx hblanks hrest

theorem answers_trivia_here (hx : IsStop x.rest) : Answers grammar trivia x (some x) := by
  have htrivia := answers_trivia (List.nil_append x.rest).symm nofun hx
  rwa [Reached.past_nil rfl] at htrivia

theorem answers_foundTrivia_here (hx : IsStop x.rest) : Answers grammar foundTrivia x (some x) := by
  have htrivia := answers_foundTrivia (List.nil_append x.rest).symm nofun hx
  rwa [Reached.past_nil rfl] at htrivia

theorem answers_sign_none {s : String} (hx : x.rest = blanks ++ rest) (hblanks : ∀ c ∈ blanks, isSpace c = true)
    (hrest : IsStop rest) (hs : ¬ s.toList <+: rest) : Answers grammar (sign s) x none :=
  .seq (answers_trivia hx hblanks hrest) (answers_text_none hs)

theorem answers_sign_none_here {s : String} (hx : IsStop x.rest) (hs : ¬ s.toList <+: x.rest) :
    Answers grammar (sign s) x none := .seq (answers_trivia_here hx) (answers_text_none hs)

/-- A word does not stand where another name does. -/
theorem answers_word_none {w : String} (hw : w.toList.all isNameChar = true) (hx : x.rest = blanks ++ rest)
    (hblanks : ∀ c ∈ blanks, isSpace c = true) (hrest : IsStop rest) (hother : rest.takeWhile isNameChar ≠ w.toList) :
    Answers grammar (word w) x none := by
  have htrivia := answers_trivia hx hblanks hrest
  by_cases hprefix : w.toList <+: rest
  · obtain ⟨behind, rfl⟩ := hprefix
    refine .seq (.seq htrivia (answers_text rfl)) ?_
    cases behind with
    | nil =>
        rw [List.append_nil, List.takeWhile_eq_self_iff.mpr (List.all_eq_true.mp hw)] at hother
        exact absurd rfl hother
    | cons c behind =>
        by_cases hc : isNameChar c = true
        · exact .unless_none (answers_char rfl hc)
        · refine absurd (Text.takeWhile_append_eq (List.all_eq_true.mp hw) fun d hd => ?_) hother
          exact Option.some.inj hd ▸ Bool.eq_false_iff.mpr hc
  · exact .seq_none (.seq htrivia (answers_text_none hprefix))

/-- Where the code of a plain character stands that may start a name. -/
theorem toNat_of_isPlainStart {c : Char} (h : isPlainStart c = true) : c.toNat = 36 ∨ 65 ≤ c.toNat ∧ c.toNat < 128 := by
  have halpha : c.isAlpha = (decide (c.val ≥ 65 ∧ c.val ≤ 90) || (decide (c.val ≥ 97) && decide (c.val ≤ 122))) := rfl
  simp only [isPlainStart, halpha, Bool.or_eq_true, Bool.and_eq_true, decide_eq_true_eq, beq_iff_eq, ge_iff_le,
    UInt32.le_iff_toNat_le, Char.ext_iff, ← UInt32.toNat_inj, UInt32.reduceToNat, Char.reduceVal] at h
  change c.val.toNat = 36 ∨ 65 ≤ c.val.toNat ∧ c.val.toNat < 128
  omega

theorem toNat_of_isDigit {c : Char} (h : c.isDigit = true) : 48 ≤ c.toNat ∧ c.toNat ≤ 57 := Char.isDigit_iff_toNat.mp h

theorem isNameChar_of_isPlainChar {c : Char} (h : isPlainChar c = true) : isNameChar c = true := by
  have hcode : c.toNat < 128 := by
    rcases Bool.or_eq_true_iff.mp h with hstart | hdigit
    · have hcode := toNat_of_isPlainStart hstart
      omega
    · have hcode := toNat_of_isDigit hdigit
      omega
  have hall : ∀ n < 128, isPlainChar (Char.ofNat n) = true → isNameChar (Char.ofNat n) = true := by decide +kernel
  have hchar := hall c.toNat hcode
  rw [Char.ofNat_toNat] at hchar
  exact hchar h

theorem isSpace_of_isNameChar {c : Char} (h : isNameChar c = true) : isSpace c = false := by
  cases hc : isSpace c with
  | false => rfl
  | true =>
      rw [isNameChar_of_isSpace hc] at h
      cases h

theorem isStop_of_isNameChar {c : Char} (h : isNameChar c = true) (s : List Char) : IsStop (c :: s) := by
  refine .of_cons (isSpace_of_isNameChar h) ?_
  rintro rfl
  revert h
  decide

end Lexical

section Names

variable {x : Reached Kind} {s rest : List Char}

/-- A name of letters, digits and the like. -/
def isSimpleName : List Char → Bool
  | [] => false
  | c :: s => isNameStart c && s.all isNameChar

/-- A name with hyphens in it. -/
def isHyphenated : List Char → Bool
  | [] => false
  | c :: s => isPlainStart c && (s.all fun d => isPlainChar d || d == '-') && s.contains '-'

/-- A name of a tag or an attribute, of one part. -/
def isTagWord (s : List Char) : Bool := isSimpleName s || isHyphenated s

/-- Names with points between them. -/
inductive IsMemberName : List Char → Prop where
  | word {s : List Char} : isSimpleName s = true → IsMemberName s
  | inside {owner s : List Char} : isSimpleName owner = true → IsMemberName s → IsMemberName (owner ++ '.' :: s)

/-- A name that does not go on here. -/
def EndsName (s : List Char) : Prop := ∀ c, s.head? = some c → isNameChar c = false ∧ c ≠ '-' ∧ c ≠ '\\'

theorem answers_writtenCharacter_none (h : x.rest.head? ≠ some '\\') : Answers grammar writtenCharacter x none := by
  have hnone (literal : List Char) : Answers grammar (.text ('\\' :: literal)) x none := by
    refine answers_text_none ?_
    rintro ⟨behind, hbehind⟩
    rw [← hbehind] at h
    exact h rfl
  exact .right (.seq_none (.seq_none (.seq_none (.seq_none (hnone _))))) (.seq_none (.seq_none (hnone _)))

theorem forall_of_isSimpleName (hs : isSimpleName s = true) : ∀ c ∈ s, isNameChar c = true := by
  cases s with
  | nil => cases hs
  | cons c s =>
      obtain ⟨hc, hs⟩ := Bool.and_eq_true_iff.mp hs
      exact List.forall_mem_cons.mpr ⟨(Bool.and_eq_true_iff.mp hc).1, List.all_eq_true.mp hs⟩

theorem answers_nameChars (hs : isSimpleName s = true) (hx : x.rest = s ++ rest)
    (hrest : ∀ c, rest.head? = some c → isNameChar c = false ∧ c ≠ '\\') :
    Answers grammar nameChars x (some (x.past s rest)) := by
  cases s with
  | nil => cases hs
  | cons c s =>
      obtain ⟨hc, hs⟩ := Bool.and_eq_true_iff.mp hs
      have hmany {y : Reached Kind} (hy : y.rest = rest) :
          Answers grammar (.many (Pattern.run1 isNameChar <|> writtenCharacter)) y (some y) := by
        refine .many_none (.right (.seq_none (.char_none ?_)) (answers_writtenCharacter_none ?_))
        · rw [hy]
          exact fun d hd => (hrest d hd).1
        · rw [hy]
          exact fun hd => (hrest _ hd).2 rfl
      refine .seq (.left (answers_char hx hc)) ?_
      cases s with
      | nil => exact hmany rfl
      | cons d s =>
          obtain ⟨hd, hs⟩ := List.forall_mem_cons.mp (List.all_eq_true.mp hs)
          have hrun := Answers.seq (answers_char (x := x.past [c] (d :: s ++ rest)) rfl hd)
            (answers_run rfl hs fun e he => (hrest e he).1)
          rw [Reached.past_past, Reached.past_past] at hrun
          refine .many_more (.left hrun) ?_ (hmany rfl)
          simp

theorem answers_hyphenated (hs : isHyphenated s = true) (hx : x.rest = s ++ rest) (hrest : EndsName rest) :
    Answers grammar hyphenated x (some (x.past s rest)) := by
  cases s with
  | nil => cases hs
  | cons c s =>
      simp only [isHyphenated, Bool.and_eq_true, List.all_eq_true, Bool.or_eq_true, beq_iff_eq, List.contains_iff_mem] at hs
      obtain ⟨⟨hc, hs⟩, hhyphen⟩ := hs
      -- The name is cut at its first hyphen.
      obtain ⟨before, behind, rfl, hbefore⟩ := List.eq_append_cons_of_mem hhyphen
      have hplain : ∀ d ∈ before, isPlainChar d = true := fun d hd =>
        (hs d (List.mem_append_left _ hd)).resolve_right fun heq => hbefore (heq ▸ hd)
      have hbehind : ∀ d ∈ behind, (isPlainChar d || d == '-') = true := fun d hd =>
        Bool.or_eq_true_iff.mpr ((hs d (List.mem_append_right _ (List.mem_cons_of_mem _ hd))).imp_right beq_iff_eq.mpr)
      have hx' : x.rest = c :: (before ++ ('-' :: (behind ++ rest))) := by
        rw [hx]
        simp
      have hstart := Answers.seq (answers_char hx' hc) (answers_run rfl hplain fun d hd => by
        rw [← Option.some.inj hd]
        decide)
      have hmiddle := Answers.seq hstart (answers_text (s := ['-']) rfl)
      have hall := Answers.seq hmiddle (answers_run rfl hbehind fun d hd => by
        obtain ⟨hname, hne, -⟩ := hrest d hd
        rw [Bool.or_eq_false_iff]
        refine ⟨Bool.eq_false_iff.mpr fun hd => ?_, beq_eq_false_iff_ne.mpr hne⟩
        rw [isNameChar_of_isPlainChar hd] at hname
        cases hname)
      simp only [Reached.past_past, List.append_assoc, List.cons_append] at hall
      exact hall

theorem answers_hyphenated_none (hs : isSimpleName s = true) (hx : x.rest = s ++ rest) (hrest : EndsName rest) :
    Answers grammar hyphenated x none := by
  cases s with
  | nil => cases hs
  | cons c s =>
      obtain ⟨-, hs⟩ := Bool.and_eq_true_iff.mp hs
      refine .seq_none ?_
      by_cases hc : isPlainStart c = true
      · refine .seq (.seq (answers_char hx hc) (.run _)) (answers_text_none ?_)
        have hplain : ∀ d, rest.head? = some d → isPlainChar d = false := fun d hd => by
          refine Bool.eq_false_iff.mpr fun hplain => ?_
          have hname := (hrest d hd).1
          rw [isNameChar_of_isPlainChar hplain] at hname
          cases hname
        change ¬ ['-'] <+: (s ++ rest).dropWhile isPlainChar
        rw [Text.dropWhile_append_of_head hplain]
        rintro ⟨behind, hbehind⟩
        -- What stops the run is a character of the name, or the one behind it.
        cases hdrop : s.dropWhile isPlainChar with
        | nil =>
            rw [hdrop, List.nil_append] at hbehind
            exact (hrest '-' (by rw [← hbehind]; rfl)).2.1 rfl
        | cons d further =>
            rw [hdrop] at hbehind
            obtain ⟨rfl, -⟩ := List.cons.inj hbehind
            have hmem : '-' ∈ s := (List.dropWhile_suffix isPlainChar).mem (by rw [hdrop]; exact List.mem_cons_self)
            exact absurd (List.all_eq_true.mp hs _ hmem) (by decide)
      · refine .seq_none (.seq_none (.char_none fun d hd => ?_))
        rw [hx] at hd
        exact Option.some.inj hd ▸ Bool.eq_false_iff.mpr hc

theorem answers_tagWord (hs : isTagWord s = true) (hx : x.rest = s ++ rest) (hrest : EndsName rest) :
    Answers grammar tagWord x (some (x.past s rest)) := by
  rcases Bool.or_eq_true_iff.mp hs with hs | hs
  · exact .right (answers_hyphenated_none hs hx hrest)
      (answers_nameChars hs hx fun c hc => ⟨(hrest c hc).1, (hrest c hc).2.2⟩)
  · exact .left (answers_hyphenated hs hx hrest)

/-- What stands behind a name: white space, and then something else than names are made of. -/
structure Clear (blanks rest : List Char) : Prop where
  blank : ∀ c ∈ blanks, isSpace c = true
  stop : IsStop rest
  ends : EndsName (blanks ++ rest)

theorem EndsName.of_point (s : List Char) : EndsName ('.' :: s) := by
  intro c hc
  rw [← Option.some.inj hc]
  decide

theorem EndsName.nameChars (h : EndsName s) : ∀ c, s.head? = some c → isNameChar c = false ∧ c ≠ '\\' :=
  fun c hc => ⟨(h c hc).1, (h c hc).2.2⟩

theorem not_prefix_of_head {c : Char} (h : s.head? ≠ some c) : ¬ [c] <+: s := by
  rintro ⟨behind, rfl⟩
  exact h rfl

theorem isNameStart_of_isPlainStart {c : Char} (h : isPlainStart c = true) : isNameStart c = true := by
  have hdigit : c.isDigit = false := by
    refine Bool.eq_false_iff.mpr fun hdigit => ?_
    have hcode := toNat_of_isPlainStart h
    have hcode' := toNat_of_isDigit hdigit
    omega
  rw [isNameStart, isNameChar_of_isPlainChar (Bool.or_eq_true_iff.mpr (.inl h)), hdigit]
  rfl

/-- A name starts so that no number, sign or comment does. -/
theorem exists_of_isTagWord (hs : isTagWord s = true) : ∃ c further, s = c :: further ∧ isNameStart c = true := by
  cases s with
  | nil => cases hs
  | cons c s =>
      refine ⟨c, s, rfl, ?_⟩
      rcases Bool.or_eq_true_iff.mp hs with hs | hs
      · exact (Bool.and_eq_true_iff.mp hs).1
      · exact isNameStart_of_isPlainStart (Bool.and_eq_true_iff.mp (Bool.and_eq_true_iff.mp hs).1).1

theorem isStop_of_isNameStart {c : Char} (h : isNameStart c = true) (s : List Char) : IsStop (c :: s) :=
  isStop_of_isNameChar (Bool.and_eq_true_iff.mp h).1 s

theorem isStop_of_isTagWord (hs : isTagWord s = true) (rest : List Char) : IsStop (s ++ rest) := by
  obtain ⟨c, further, rfl, hc⟩ := exists_of_isTagWord hs
  exact isStop_of_isNameStart hc _

/-- A point and the name behind it. -/
theorem answers_member (hs : isSimpleName s = true) (hx : x.rest = '.' :: (s ++ rest)) (hrest : EndsName rest) :
    Answers grammar (trivia ++ .text ['.'] ++ trivia ++ nameChars) x (some (x.past ('.' :: s) rest)) := by
  have hpoint : IsStop x.rest := hx ▸ .of_cons (by decide) (by decide)
  have hname : IsStop (s ++ rest) := isStop_of_isTagWord (Bool.or_eq_true_iff.mpr (.inl hs)) rest
  have hall := Answers.seq (.seq (.seq (answers_trivia_here hpoint) (answers_text (s := ['.']) hx))
    (answers_trivia_here hname)) (answers_nameChars hs rfl hrest.nameChars)
  rwa [Reached.past_past] at hall

theorem answers_members {blanks : List Char} (hs : IsMemberName s) (hx : x.rest = '.' :: (s ++ (blanks ++ rest)))
    (h : Clear blanks rest) (hpoint : rest.head? ≠ some '.') :
    Answers grammar (.many (trivia ++ .text ['.'] ++ trivia ++ nameChars)) x
      (some (x.past ('.' :: s) (blanks ++ rest))) := by
  induction hs generalizing x with
  | @word s hs =>
      refine .many_more (answers_member hs hx h.ends) (by simp) (.many_none (.seq_none (.seq_none ?_)))
      exact .seq (answers_trivia rfl h.blank h.stop) (answers_text_none (not_prefix_of_head hpoint))
  | @inside owner s howner _ ih =>
      have hx' : x.rest = '.' :: (owner ++ '.' :: (s ++ (blanks ++ rest))) := by
        rw [hx, List.append_assoc, List.cons_append]
      have hrest := ih (x := x.past ('.' :: owner) ('.' :: (s ++ (blanks ++ rest)))) rfl
      rw [Reached.past_past] at hrest
      exact .many_more (answers_member howner hx' (.of_point _)) (by simp) hrest

/-- A name of one part is not that of a space of names. -/
theorem answers_spaced_none {blanks : List Char} (hs : isTagWord s = true) (hx : x.rest = s ++ (blanks ++ rest))
    (h : Clear blanks rest) (hcolon : rest.head? ≠ some ':') :
    Answers grammar (tagWord ++ trivia ++ .text [':'] ++ trivia ++ tagWord) x none := by
  refine .seq_none (.seq_none (.seq (.seq (answers_tagWord hs hx h.ends) (answers_trivia rfl h.blank h.stop)) ?_))
  exact answers_text_none (not_prefix_of_head hcolon)

/-- A name of an element: with hyphens, or names with points between them. -/
def IsElementName (s : List Char) : Prop := isHyphenated s = true ∨ IsMemberName s

/-- A name is a word, or one that a point follows. -/
theorem exists_of_isElementName (hs : IsElementName s) :
    ∃ word further, s = word ++ further ∧ isTagWord word = true ∧
      (further = [] ∨ isSimpleName word = true ∧ further.head? = some '.') := by
  rcases hs with hs | hs
  · exact ⟨s, [], (List.append_nil s).symm, Bool.or_eq_true_iff.mpr (.inr hs), .inl rfl⟩
  · cases hs with
    | word hs => exact ⟨s, [], (List.append_nil s).symm, Bool.or_eq_true_iff.mpr (.inl hs), .inl rfl⟩
    | @inside owner s howner _ => exact ⟨owner, '.' :: s, rfl, Bool.or_eq_true_iff.mpr (.inl howner), .inr ⟨howner, rfl⟩⟩

theorem answers_elementName {blanks : List Char} (hs : IsElementName s)
    (hx : x.rest = s ++ (blanks ++ rest)) (h : Clear blanks rest) (hcolon : rest.head? ≠ some ':')
    (hpoint : rest.head? ≠ some '.') : Answers grammar elementName x (some (x.past s (blanks ++ rest))) := by
  rcases hs with hs | hs
  · have hword : isTagWord s = true := Bool.or_eq_true_iff.mpr (.inr hs)
    exact .right (answers_spaced_none hword hx h hcolon) (.left (answers_hyphenated hs hx h.ends))
  · cases hs with
    | word hs =>
        have hword : isTagWord s = true := Bool.or_eq_true_iff.mpr (.inl hs)
        refine .right (answers_spaced_none hword hx h hcolon) (.right (answers_hyphenated_none hs hx h.ends) ?_)
        refine .seq (answers_nameChars hs hx h.ends.nameChars) (.many_none (.seq_none (.seq_none ?_)))
        exact .seq (answers_trivia rfl h.blank h.stop) (answers_text_none (not_prefix_of_head hpoint))
    | @inside owner s howner hs =>
        have hx' : x.rest = owner ++ ([] ++ '.' :: (s ++ (blanks ++ rest))) := by
          rw [hx, List.append_assoc, List.cons_append, List.nil_append]
        have hword : isTagWord owner = true := Bool.or_eq_true_iff.mpr (.inl howner)
        have hparts : Clear [] ('.' :: (s ++ (blanks ++ rest))) := ⟨nofun, .of_cons (by decide) (by decide), .of_point _⟩
        have hmembers := answers_members (x := x.past owner ('.' :: (s ++ (blanks ++ rest)))) hs rfl h hpoint
        rw [Reached.past_past] at hmembers
        exact .right (answers_spaced_none hword hx' hparts (by simp))
          (.right (answers_hyphenated_none howner hx' hparts.ends)
            (.seq (answers_nameChars howner hx' hparts.ends.nameChars) hmembers))

/-- A name of an attribute: of one part, or of a space of names and a part. -/
def IsAttributeName (s : List Char) : Prop :=
  isTagWord s = true ∨ ∃ space name, s = space ++ ':' :: name ∧ isTagWord space = true ∧ isTagWord name = true

theorem exists_of_isAttributeName (hs : IsAttributeName s) : ∃ c further, s = c :: further ∧ isNameStart c = true := by
  rcases hs with hs | ⟨space, name, rfl, hspace, -⟩
  · exact exists_of_isTagWord hs
  · obtain ⟨c, further, rfl, hc⟩ := exists_of_isTagWord hspace
    exact ⟨c, further ++ ':' :: name, rfl, hc⟩

theorem answers_attributeName {blanks : List Char} (hs : IsAttributeName s) (hx : x.rest = s ++ (blanks ++ rest))
    (h : Clear blanks rest) (hcolon : rest.head? ≠ some ':') :
    Answers grammar attributeName x (some (x.past s (blanks ++ rest))) := by
  rcases hs with hs | ⟨space, name, rfl, hspace, hname⟩
  · exact .right (answers_spaced_none hs hx h hcolon) (answers_tagWord hs hx h.ends)
  · have hx' : x.rest = space ++ ':' :: (name ++ (blanks ++ rest)) := by
      rw [hx, List.append_assoc, List.cons_append]
    have hends : EndsName (':' :: (name ++ (blanks ++ rest))) := by
      intro c hc
      rw [← Option.some.inj hc]
      decide
    have hstop : IsStop (name ++ (blanks ++ rest)) := isStop_of_isTagWord hname _
    have hall := Answers.seq (.seq (.seq (.seq (answers_tagWord hspace hx' hends)
      (answers_trivia_here (x := x.past space _) (.of_cons (by decide) (by decide))))
      (answers_text (s := [':']) rfl)) (answers_trivia_here hstop)) (answers_tagWord hname rfl h.ends)
    rw [Reached.past_past, Reached.past_past] at hall
    exact .left hall

end Names

end Jsx
end MarkupIds
