import MarkupIds.Text.Quoted

/-! Texts as bytes. A character takes one to four bytes; a sequence that is longer than it needs to be,
or that names half of a surrogate pair, is not a character. -/

namespace MarkupIds.Text

/-- Why bytes are not a text. -/
inductive Utf8Cause where
  | start
  | continuation
  | unfinished
deriving DecidableEq, Repr

/-- Where bytes stop being a text, and why. -/
structure Utf8Fault where
  cause : Utf8Cause
  first : UInt8
  offset : Nat
  size : Nat
deriving DecidableEq, Repr

namespace Utf8Fault

def reason : Utf8Cause → String
  | .start => "invalid start byte"
  | .continuation => "invalid continuation byte"
  | .unfinished => "unexpected end of data"

def message (f : Utf8Fault) : String :=
  let what :=
    if f.size ≤ 1 then
      "byte 0x" ++ String.ofList (hexDigits 2 f.first.toNat) ++ " in position " ++ toString f.offset
    else
      "bytes in position " ++ toString f.offset ++ "-" ++ toString (f.offset + f.size - 1)
  "'utf-8' codec can't decode " ++ what ++ ": " ++ reason f.cause

end Utf8Fault

def isContinuation (b : UInt8) : Bool := 0x80 ≤ b && b < 0xC0

/-- The byte `b` may follow the first byte `a` of a character. -/
def mayFollow (a b : UInt8) : Bool :=
  isContinuation b &&
    (if a == 0xE0 then 0xA0 ≤ b
     else if a == 0xED then b < 0xA0
     else if a == 0xF0 then 0x90 ≤ b
     else if a == 0xF4 then b < 0x90
     else true)

/-- How many bytes the character that starts with `a` has. -/
def sizeFrom? (a : UInt8) : Option Nat :=
  if a < 0x80 then some 1
  else if 0xC2 ≤ a && a < 0xE0 then some 2
  else if 0xE0 ≤ a && a < 0xF0 then some 3
  else if 0xF0 ≤ a && a < 0xF5 then some 4
  else none

def addBits (n : Nat) (b : UInt8) : Nat := n * 64 + b.toNat % 64

/-- The number that the bytes after `a` complete, or how many of the bytes belong together and why
they are no character. -/
def charNumber (a : UInt8) (size : Nat) (following : List UInt8) : Except (Utf8Cause × Nat) Nat :=
  match size, following with
  | 2, b :: _ =>
    if mayFollow a b then .ok (addBits (a.toNat % 32) b) else .error (.continuation, 1)
  | 3, b :: c :: _ =>
    if !mayFollow a b then .error (.continuation, 1)
    else if !isContinuation c then .error (.continuation, 2)
    else .ok (addBits (addBits (a.toNat % 16) b) c)
  | 4, b :: c :: d :: _ =>
    if !mayFollow a b then .error (.continuation, 1)
    else if !isContinuation c then .error (.continuation, 2)
    else if !isContinuation d then .error (.continuation, 3)
    else .ok (addBits (addBits (addBits (a.toNat % 8) b) c) d)
  | 4, [b, c] =>
    if !mayFollow a b then .error (.continuation, 1)
    else if !isContinuation c then .error (.continuation, 2)
    else .error (.unfinished, 3)
  | 1, _ => .ok a.toNat
  | _, [b] => if mayFollow a b then .error (.unfinished, 2) else .error (.continuation, 1)
  | _, _ => .error (.unfinished, 1)

/-- The text of some bytes, the first of which has the given offset. While `skip` is not zero the
bytes belong to a character that has been read. -/
def decodeFrom (offset skip : Nat) : List UInt8 → Except Utf8Fault (List Char)
  | [] => .ok []
  | a :: rest =>
    match skip with
    | skip + 1 => decodeFrom (offset + 1) skip rest
    | 0 =>
      match sizeFrom? a with
      | none => .error ⟨.start, a, offset, 1⟩
      | some size =>
        match charNumber a size rest with
        | .error (cause, size) => .error ⟨cause, a, offset, size⟩
        | .ok n =>
          match decodeFrom (offset + 1) (size - 1) rest with
          | .ok text => .ok (Char.ofNat n :: text)
          | .error fault => .error fault

def decode (bytes : List UInt8) : Except Utf8Fault (List Char) := decodeFrom 0 0 bytes

def encode (text : List Char) : List UInt8 := text.flatMap String.utf8EncodeChar

def withLineFeeds : List Char → List Char
  | [] => []
  | '\r' :: '\n' :: rest => '\n' :: withLineFeeds rest
  | c :: rest => (if c == '\r' then '\n' else c) :: withLineFeeds rest

end MarkupIds.Text
