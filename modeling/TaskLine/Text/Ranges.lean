/-!
# Sets of characters as ranges

A property of Unicode characters is written as an increasing list of ranges of
code points, both ends included. Membership stops at the first range that
begins beyond the character.
-/

namespace TaskLine.Text

/-- Ranges of code points, both ends included, in increasing order. -/
abbrev Ranges := List (Nat × Nat)

/-- Whether a code point lies in one of the ranges. -/
def Ranges.has : Ranges → Nat → Bool
  | [], _ => false
  | (lo, hi) :: rs, n => if n < lo then false else if n ≤ hi then true else Ranges.has rs n

/-- The start of the range that holds a code point. -/
def Ranges.start? : Ranges → Nat → Option Nat
  | [], _ => none
  | (lo, hi) :: rs, n => if n < lo then none else if n ≤ hi then some lo else Ranges.start? rs n

end TaskLine.Text
