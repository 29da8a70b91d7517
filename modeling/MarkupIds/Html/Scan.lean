import MarkupIds.Html.Token
import MarkupIds.Text.Position

/-! The tokens of a whole document. A first pass stops at the first construct that the end of the
text cuts short; from there a second pass takes such constructs for text. -/

namespace MarkupIds.Html

open MarkupIds.Text (isBlank isLetter after? cutBy Position)

/-- What stands at the start of a text: tokens and the number of characters they took, after which
the pass goes on or stops; or a refusal. -/
inductive Finding where
  | goOn (tokens : List Token) (count : Nat)
  | stop (tokens : List Token) (count : Nat)
  | refused (r : Refusal)

/-- How much of an unfinished construct the second pass takes for text: up to the next closing
bracket or before the next opening one, or else a single character. -/
def unfinishedLength (s : List Char) : Nat :=
  match Text.indexOf? ['>'] (s.drop 1) with
  | some n => n + 2
  | none =>
    match Text.indexOf? ['<'] (s.drop 1) with
    | some n => n + 1
    | none => 1

/-- The finding at an opening bracket. -/
def atBracket (lastPass : Bool) (s : List Char) : Finding :=
  match readMarkup s with
  | .read tokens count => .goOn tokens count
  | .refused r => .refused r
  | .unfinished =>
    if lastPass then
      let count := unfinishedLength s
      .goOn [.text (s.take count)] count
    else .stop [] 0

def withSemicolon (count : Nat) (s : List Char) : Nat :=
  if (s.drop count).head? == some ';' then count + 1 else count

/-- The finding at an ampersand. A reference that may be cut short ends the pass. -/
def atAmpersand (lastPass : Bool) (s : List Char) : Finding :=
  match s.drop 1 with
  | '#' :: r =>
    match textNumber? r with
    | some (skip, base, digits) =>
      if base == 10 && Text.digitLimit < digits.length then .refused (.longNumber digits.length)
      else
        .goOn [.text (textOfNumber (Text.numberOf base digits))]
          (withSemicolon (2 + skip + digits.length) s)
    | none => if s.contains ';' then .stop [.text ['&', '#']] 2 else .stop [] 0
  | r =>
    match textName? r with
    | some name => .goOn [.text (textOfName name)] (withSemicolon (1 + name.length) s)
    | none =>
      match r with
      | [] => .stop [] 0
      | [c] => if isLetter c then .stop [] (if lastPass then 1 else 0) else .goOn [.text ['&']] 1
      | c :: _ => if isLetter c then .stop [] 0 else .goOn [.text ['&']] 1

def inContent (lastPass : Bool) (s : List Char) : Finding :=
  match s with
  | [] => .stop [] 0
  | '<' :: _ => atBracket lastPass s
  | '&' :: _ => atAmpersand lastPass s
  | _ =>
    let run := s.takeWhile fun c => !(c == '<' || c == '&')
    .goOn [.text run] run.length

def sameLetter (letter c : Char) : Bool :=
  c.toLower == letter || (letter == 's' && c == 'ſ') || (letter == 'i' && (c == 'İ' || c == 'ı'))

def afterLetters? : List Char → List Char → Option (List Char)
  | [], s => some s
  | letter :: name, c :: s => if sameLetter letter c then afterLetters? name s else none
  | _ :: _, [] => none

def rawEnd (name : List Char) (s : List Char) : Option (List Char) :=
  (after? ['<', '/'] s).bind fun r =>
    (afterLetters? name (r.dropWhile isBlank)).bind fun r => after? ['>'] (r.dropWhile isBlank)

/-- The tokens of raw content and the end tag behind it. An end tag in letters that only resemble the
name is text as well. -/
def rawTokens (name : String) (content tag : List Char) : List Token :=
  let ends := (plainClosing? tag).any fun (n, _) => Text.lower n == name.toList
  (if content.isEmpty then [] else [.text content]) ++ [if ends then .closing name else .text tag]

def inRaw (name : String) (s : List Char) : Finding :=
  match cutBy (rawEnd name.toList) s with
  | none => .stop [] 0
  | some (content, rest) =>
    let count := s.length - rest.length
    .goOn (rawTokens name content ((s.take count).drop content.length)) count

def findingAt (lastPass : Bool) (raw : Option String) (s : List Char) : Finding :=
  match raw with
  | none => inContent lastPass s
  | some name => inRaw name s

def isRaw (name : String) : Bool := name == "script" || name == "style"

/-- The element whose raw content follows some tokens, if it was `raw` before. -/
def rawAfter (raw : Option String) : List Token → Option String
  | [] => raw
  | .opening name _ closed :: rest =>
    rawAfter (if !closed && isRaw name then some name else raw) rest
  | .closing _ :: rest => rawAfter none rest
  | _ :: rest => rawAfter raw rest

/-- The tokens of `s`, which starts at `p`, each with the place where its construct starts. `fuel`
bounds the number of findings. -/
def scanFrom (fuel : Nat) (lastPass : Bool) (raw : Option String) (p : Position) (s : List Char) :
    Except Refusal (List (Position × Token)) :=
  match fuel with
  | 0 => .ok []
  | fuel + 1 =>
    match findingAt lastPass raw s with
    | .refused r => .error r
    | .goOn tokens count =>
      (scanFrom fuel lastPass (rawAfter raw tokens) (p.advance (s.take count)) (s.drop count)).map
        fun rest => tokens.map (p, ·) ++ rest
    | .stop tokens count =>
      let rest := s.drop count
      if lastPass then
        .ok (tokens.map (p, ·) ++ if raw.isNone && !rest.isEmpty then [(p, .text rest)] else [])
      else
        (scanFrom fuel true raw (p.advance (s.take count)) rest).map
          fun rest => tokens.map (p, ·) ++ rest

def scan (s : List Char) : Except Refusal (List (Position × Token)) :=
  scanFrom (2 * s.length + 3) false none Position.start s

end MarkupIds.Html
