/-! Grammars as data. A pattern says what may stand at the start of a text; of two alternatives the
first that matches counts, and a repetition takes as much as it can. Some patterns leave a trace: the
tree of what they matched. -/

namespace MarkupIds.Grammar

/-- The trace of a match: a leaf with its text, or a branch with what was found inside it. -/
inductive Tree (Kind : Type) where
  | leaf (kind : Kind) (start stop : Nat) (text : List Char)
  | branch (kind : Kind) (start stop : Nat) (children : List (Tree Kind))

/-- What may stand at the start of a text. -/
inductive Pattern (Rule Kind : Type) where
  | empty
  | char (p : Char → Bool)
  | run (p : Char → Bool)
  | text (s : List Char)
  | seq (a b : Pattern Rule Kind)
  | alt (a b : Pattern Rule Kind)
  | many (a : Pattern Rule Kind)
  | unless (a : Pattern Rule Kind)
  | given (p : List Char → Bool)
  | flagged
  | flag (b : Bool)
  | token (kind : Kind) (a : Pattern Rule Kind)
  | branch (kind : Kind) (a : Pattern Rule Kind)
  | rule (r : Rule)

/-- How far a match has come. -/
structure Reached (Kind : Type) where
  offset : Nat := 0
  rest : List Char
  found : List (Tree Kind) := []
  flag : Bool := false

namespace Pattern

variable {Rule Kind : Type}

/-- The match of a pattern under a grammar. There is no answer where `fuel`, a bound on the depth, is
too small; else there is a match or none. -/
def match? (grammar : Rule → Pattern Rule Kind) :
    Nat → Pattern Rule Kind → Reached Kind → Option (Option (Reached Kind))
  | 0, _, _ => none
  | fuel + 1, pattern, s =>
    match pattern with
    | .empty => some (some s)
    | .char p =>
      match s.rest with
      | c :: rest => if p c then some (some { s with offset := s.offset + 1, rest }) else some none
      | [] => some none
    | .run p =>
      let taken := s.rest.takeWhile p
      some (some { s with offset := s.offset + taken.length, rest := s.rest.dropWhile p })
    | .text t =>
      if t.isPrefixOf s.rest then
        some (some { s with offset := s.offset + t.length, rest := s.rest.drop t.length })
      else some none
    | .seq a b =>
      match match? grammar fuel a s with
      | some (some t) => match? grammar fuel b t
      | answer => answer
    | .alt a b =>
      match match? grammar fuel a s with
      | some none => match? grammar fuel b s
      | answer => answer
    | .many a =>
      match match? grammar fuel a s with
      | some (some t) =>
        if t.offset == s.offset then some (some t) else match? grammar fuel (.many a) t
      | some none => some (some s)
      | none => none
    | .unless a =>
      match match? grammar fuel a s with
      | some (some _) => some none
      | some none => some (some s)
      | none => none
    | .given p => if p s.rest then some (some s) else some none
    | .flagged => if s.flag then some (some s) else some none
    | .flag b => some (some { s with flag := b })
    | .token kind a =>
      match match? grammar fuel a s with
      | some (some t) =>
        let text := s.rest.take (t.offset - s.offset)
        some (some { t with found := .leaf kind s.offset t.offset text :: s.found })
      | answer => answer
    | .branch kind a =>
      match match? grammar fuel a { s with found := [] } with
      | some (some t) =>
        let tree := .branch kind s.offset t.offset t.found.reverse
        some (some { t with found := tree :: s.found })
      | answer => answer
    | .rule r => match? grammar fuel (grammar r) s

instance : Append (Pattern Rule Kind) := ⟨.seq⟩

instance : OrElse (Pattern Rule Kind) := ⟨fun a b => .alt a (b ())⟩

def opt (a : Pattern Rule Kind) : Pattern Rule Kind := a <|> .empty

def some1 (a : Pattern Rule Kind) : Pattern Rule Kind := a ++ .many a

def run1 (p : Char → Bool) : Pattern Rule Kind := .char p ++ .run p

def ahead (a : Pattern Rule Kind) : Pattern Rule Kind := .unless (.unless a)

/-- The first of some patterns that matches. -/
def oneOf : List (Pattern Rule Kind) → Pattern Rule Kind
  | [] => .unless .empty
  | [a] => a
  | a :: as => .alt a (oneOf as)

end Pattern

def parse? {Rule Kind : Type} (grammar : Rule → Pattern Rule Kind) (start : Rule)
    (text : List Char) : Option (List (Tree Kind)) :=
  match Pattern.match? grammar (1000 * (text.length + 10)) (.rule start) { rest := text } with
  | some (some reached) => if reached.rest.isEmpty then some reached.found.reverse else none
  | _ => none

end MarkupIds.Grammar
