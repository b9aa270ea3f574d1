import TaskLine.Text.Digits
import TaskLine.Text.Quoted

/-!
# UTF-8

Bytes are read as characters of one to four bytes: a first byte that says how
many follow, and following bytes between 0x80 and 0xBF. For some first bytes the
second one is held to a smaller range, which keeps out what has a shorter form,
surrogates and numbers beyond the last character.
-/

namespace TaskLine.Utf8

/-- What is wrong with some bytes. -/
inductive Cause where
  | invalidStart
  | invalidContinuation
  | unexpectedEnd
deriving DecidableEq, Repr

/-- Bytes that cannot be read: where they are, the first of them, and how many
they are. -/
structure Fault where
  position : Nat
  byte : Nat
  count : Nat
  cause : Cause
deriving DecidableEq, Repr

def Cause.message : Cause → Text
  | .invalidStart => "invalid start byte".toList
  | .invalidContinuation => "invalid continuation byte".toList
  | .unexpectedEnd => "unexpected end of data".toList

/-- Where the unreadable bytes are, in words. -/
def Fault.place (f : Fault) : Text :=
  if f.count = 1 then
    "byte 0x".toList ++ Text.hex 2 f.byte ++ " in position ".toList ++ Text.ofNat f.position
  else
    "bytes in position ".toList ++ Text.ofNat f.position ++ ['-']
      ++ Text.ofNat (f.position + f.count - 1)

def Fault.message (f : Fault) : Text :=
  "'utf-8' codec can't decode ".toList ++ f.place ++ ": ".toList ++ f.cause.message

/-- What a first byte says: how many bytes follow, between what bounds the next
one lies, and the bits that it has itself. -/
structure Lead where
  following : Nat
  low : Nat
  high : Nat
  bits : Nat

def lead? (b : Nat) : Option Lead :=
  if b < 0x80 then some ⟨0, 0x80, 0xBF, b⟩
  else if b < 0xC2 then none
  else if b < 0xE0 then some ⟨1, 0x80, 0xBF, b - 0xC0⟩
  else if b < 0xF0 then
    some ⟨2, if b = 0xE0 then 0xA0 else 0x80, if b = 0xED then 0x9F else 0xBF, b - 0xE0⟩
  else if b < 0xF5 then
    some ⟨3, if b = 0xF0 then 0x90 else 0x80, if b = 0xF4 then 0x8F else 0xBF, b - 0xF0⟩
  else none

/-- Read following bytes. If they cannot be read the result is the number of the
bytes that could, the first byte included. -/
def follow : (following low high bits read : Nat) → List Nat → Except (Nat × Cause) Nat
  | 0, _, _, bits, _, _ => .ok bits
  | _ + 1, _, _, _, read, [] => .error (read, .unexpectedEnd)
  | n + 1, low, high, bits, read, b :: bs =>
    if low ≤ b && b ≤ high then follow n 0x80 0xBF (64 * bits + (b - 0x80)) (read + 1) bs
    else .error (read, .invalidContinuation)

/-- Read bytes from a position on; the first `skipped` ones belong to a character
that was read already. -/
def decodeFrom (position skipped : Nat) : List Nat → Except Fault Text
  | [] => .ok []
  | b :: bs =>
    match skipped with
    | k + 1 => decodeFrom (position + 1) k bs
    | 0 =>
      match lead? b with
      | none => .error ⟨position, b, 1, .invalidStart⟩
      | some l =>
        match follow l.following l.low l.high l.bits 1 bs with
        | .error (count, cause) => .error ⟨position, b, count, cause⟩
        | .ok n =>
          match decodeFrom (position + 1) l.following bs with
          | .ok cs => .ok (Char.ofNat n :: cs)
          | .error f => .error f

/-- The text that bytes stand for. -/
def decode (bytes : List Nat) : Except Fault Text := decodeFrom 0 0 bytes

/-- How many bytes a text has. -/
def byteCount (s : Text) : Nat := s.foldl (fun n c => n + c.utf8Size) 0

end TaskLine.Utf8
