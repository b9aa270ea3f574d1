import TaskLine.Text.Basic

/-!
# Base 64

Bytes written in sixty-four characters of six bits each. Characters of no value are
passed over when bytes are read. What is written comes in lines of 76 characters.
-/

namespace TaskLine.Yaml.Base64

def alphabet : Text :=
  "ABCDEFGHIJKLMNOPQRSTUVWXYZabcdefghijklmnopqrstuvwxyz0123456789+/".toList

/-- The six bits that a character stands for. -/
def value? (c : Char) : Option Nat := alphabet.idxOf? c

def digit (n : Nat) : Char := alphabet[n % 64]?.getD 'A'

/-- Read bytes. `count` characters of a group of four were read, and `bits` is what
they left for the next byte; `pads` equals signs stand behind them. A group must be
complete, or be filled up by equals signs, which end the text. -/
def decodeFrom (count bits pads : Nat) : Text → Option (List Nat)
  | [] => if count = 0 then some [] else none
  | c :: cs =>
    if c = '=' then
      if 2 ≤ count && 4 ≤ count + pads + 1 then some []
      else decodeFrom count bits (if 2 ≤ count then pads + 1 else pads) cs
    else
      match value? c, count with
      | none, _ => decodeFrom count bits pads cs
      | some v, 0 => decodeFrom 1 v 0 cs
      | some v, 1 => (decodeFrom 2 (v % 16) 0 cs).map ((bits * 4 + v / 16) :: ·)
      | some v, 2 => (decodeFrom 3 (v % 4) 0 cs).map ((bits * 16 + v / 4) :: ·)
      | some v, _ => (decodeFrom 0 0 0 cs).map ((bits * 64 + v) :: ·)

/-- The bytes that a text stands for. -/
def decode? (s : Text) : Option (List Nat) := decodeFrom 0 0 0 s

/-- Bytes in groups of four characters. -/
def groups : List Nat → List Text
  | a :: b :: c :: rest =>
    [digit (a / 4), digit (a % 4 * 16 + b / 16), digit (b % 16 * 4 + c / 64), digit c]
      :: groups rest
  | [a, b] => [[digit (a / 4), digit (a % 4 * 16 + b / 16), digit (b % 16 * 4), '=']]
  | [a] => [[digit (a / 4), digit (a % 4 * 16), '=', '=']]
  | [] => []

/-- Lines of nineteen groups; `room` groups fit in the line that was begun. -/
def linesOf (room : Nat) : List Text → Text
  | [] => []
  | [g] => g ++ ['\n']
  | g :: gs => if room ≤ 1 then g ++ '\n' :: linesOf 19 gs else g ++ linesOf (room - 1) gs

def encode (bytes : List Nat) : Text := linesOf 19 (groups bytes)

end TaskLine.Yaml.Base64
