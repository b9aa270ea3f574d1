import TaskLine.Text.Ranges
import TaskLine.Text.Basic

/-!
# Digits and whole numbers

Decimal digits exist in many scripts, ten in a row each, and a number may be
written in any of them. A whole number is read with white space around it, an
optional sign, and single underscores between digits. Numbers of more than 4300
digits are neither read nor written.
-/

namespace TaskLine.Text

/-- The decimal digits of every script, ten to a range (Unicode 14). -/
def digitRanges : Ranges :=
  [(0x30, 0x39), (0x660, 0x669), (0x6F0, 0x6F9), (0x7C0, 0x7C9), (0x966, 0x96F), (0x9E6, 0x9EF),
   (0xA66, 0xA6F), (0xAE6, 0xAEF), (0xB66, 0xB6F), (0xBE6, 0xBEF), (0xC66, 0xC6F), (0xCE6, 0xCEF),
   (0xD66, 0xD6F), (0xDE6, 0xDEF), (0xE50, 0xE59), (0xED0, 0xED9), (0xF20, 0xF29),
   (0x1040, 0x1049), (0x1090, 0x1099), (0x17E0, 0x17E9), (0x1810, 0x1819), (0x1946, 0x194F),
   (0x19D0, 0x19D9), (0x1A80, 0x1A89), (0x1A90, 0x1A99), (0x1B50, 0x1B59), (0x1BB0, 0x1BB9),
   (0x1C40, 0x1C49), (0x1C50, 0x1C59), (0xA620, 0xA629), (0xA8D0, 0xA8D9), (0xA900, 0xA909),
   (0xA9D0, 0xA9D9), (0xA9F0, 0xA9F9), (0xAA50, 0xAA59), (0xABF0, 0xABF9), (0xFF10, 0xFF19),
   (0x104A0, 0x104A9), (0x10D30, 0x10D39), (0x11066, 0x1106F), (0x110F0, 0x110F9),
   (0x11136, 0x1113F), (0x111D0, 0x111D9), (0x112F0, 0x112F9), (0x11450, 0x11459),
   (0x114D0, 0x114D9), (0x11650, 0x11659), (0x116C0, 0x116C9), (0x11730, 0x11739),
   (0x118E0, 0x118E9), (0x11950, 0x11959), (0x11C50, 0x11C59), (0x11D50, 0x11D59),
   (0x11DA0, 0x11DA9), (0x16A60, 0x16A69), (0x16AC0, 0x16AC9), (0x16B50, 0x16B59),
   (0x1D7CE, 0x1D7D7), (0x1D7D8, 0x1D7E1), (0x1D7E2, 0x1D7EB), (0x1D7EC, 0x1D7F5),
   (0x1D7F6, 0x1D7FF), (0x1E140, 0x1E149), (0x1E2F0, 0x1E2F9), (0x1E950, 0x1E959),
   (0x1FBF0, 0x1FBF9)]

/-- Digits that are no decimal digits: superscripts, subscripts and digits in
circles or brackets. -/
def ornateDigitRanges : Ranges :=
  [(0xB2, 0xB3), (0xB9, 0xB9), (0x1369, 0x1371), (0x19DA, 0x19DA), (0x2070, 0x2070),
   (0x2074, 0x2079), (0x2080, 0x2089), (0x2460, 0x2468), (0x2474, 0x247C), (0x2488, 0x2490),
   (0x24EA, 0x24EA), (0x24F5, 0x24FD), (0x24FF, 0x24FF), (0x2776, 0x277E), (0x2780, 0x2788),
   (0x278A, 0x2792), (0x10A40, 0x10A43), (0x10E60, 0x10E68), (0x11052, 0x1105A),
   (0x1F100, 0x1F10A)]

/-- The value of a decimal digit of any script. -/
def digitValue? (c : Char) : Option Nat :=
  (digitRanges.start? c.toNat).map (c.toNat - ·)

/-- Whether a character is a digit of any kind, ornate ones included. -/
def isDigit (c : Char) : Bool :=
  (digitValue? c).isSome || ornateDigitRanges.has c.toNat

/-! ## Reading whole numbers -/

/-- The most digits that a whole number may be read from or written with. -/
def digitLimit : Nat := 4300

/-- Why a text is no whole number. -/
inductive NumberFault where
  | malformed
  /-- There are more digits than the limit allows. -/
  | tooLong (digits : Nat)
deriving DecidableEq, Repr

/-- White space that may stand around a number. The separators U+001C to U+001F are
white space elsewhere, but not here. -/
def isMargin (c : Char) : Bool := isSpace c && !(28 ≤ c.toNat && c.toNat ≤ 31)

/-- The digits at the start of a text and what follows them. An underscore must stand
between two digits. -/
def digitRun? : Text → Option (List Nat × Text)
  | ['_'] => none
  | '_' :: c :: cs =>
    (digitValue? c).bind fun d => (digitRun? cs).map fun r => (d :: r.1, r.2)
  | c :: cs =>
    match digitValue? c with
    | some d => (digitRun? cs).map fun r => (d :: r.1, r.2)
    | none => some ([], c :: cs)
  | [] => some ([], [])

/-- The number that digits of a base stand for. -/
def ofDigits (base : Nat) (ds : List Nat) : Nat := ds.foldl (fun n d => base * n + d) 0

/-- A whole number without sign: digits up to the limit, and white space at most
behind them. -/
def parseNat (s : Text) : Except NumberFault Nat :=
  if s.head? = some '_' then .error .malformed
  else
    match digitRun? s with
    | none => .error .malformed
    | some (ds, rest) =>
      if digitLimit < ds.length then .error (.tooLong ds.length)
      else if ds.isEmpty || !rest.all isMargin then .error .malformed
      else .ok (ofDigits 10 ds)

/-- A sign at the start, true for a minus, and what follows it. -/
def splitSign : Text → Bool × Text
  | '-' :: cs => (true, cs)
  | '+' :: cs => (false, cs)
  | cs => (false, cs)

/-- A number with its sign. -/
def signed (negative : Bool) (n : Nat) : Int := if negative then -(n : Int) else n

/-- A whole number: an optional sign and the digits, white space around it. -/
def parseInt (s : Text) : Except NumberFault Int :=
  let (negative, cs) := splitSign (s.dropWhile isMargin)
  (parseNat cs).map (signed negative)

def readInt? (s : Text) : Option Int :=
  match parseInt s with
  | .ok n => some n
  | .error _ => none

/-- The value of a digit in base sixteen. -/
def hexValue? (c : Char) : Option Nat :=
  if '0' ≤ c ∧ c ≤ '9' then some (c.toNat - 48)
  else if 'a' ≤ c ∧ c ≤ 'f' then some (c.toNat - 87)
  else if 'A' ≤ c ∧ c ≤ 'F' then some (c.toNat - 55)
  else none

/-- Whether a whole number has more digits than may be written. -/
def exceedsDigits (n : Int) : Bool := Nat.pow 10 digitLimit ≤ n.natAbs

/-- What is said of a number that exceeds the limit; `found` are the digits that it is
read from. -/
def tooManyDigits (found : Option Nat) : Text :=
  "Exceeds the limit (".toList ++ (toString digitLimit).toList
    ++ " digits) for integer string conversion".toList
    ++ (match found with
      | some n => ": value has ".toList ++ (toString n).toList ++ " digits".toList
      | none => [])
    ++ "; use sys.set_int_max_str_digits() to increase the limit".toList

/-- A whole number in ASCII digits, with a minus sign if it is negative. -/
def ofInt (n : Int) : Text := (toString n).toList

def ofNat (n : Nat) : Text := (toString n).toList

end TaskLine.Text
