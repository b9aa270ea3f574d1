import TaskLine.Binary64
import TaskLine.Text.Digits

/-!
# Shortest decimals

A number of the format is written with the fewest decimal digits that read back
as the same number, and of the decimals with that many digits the nearest one is
taken. For a count of digits only the two neighbours of the number on the grid of
such decimals matter.
-/

namespace TaskLine.Binary64

/-- The power of ten just above a number that is greater than zero. -/
def magnitude (n d : Nat) : Int := ((Text.ofNat (n * tenTo 400 / d)).length : Int) - 400

/-- Quotient and divisor of `n / d / 10 ^ power` as whole numbers. -/
def onGrid (n d : Nat) (power : Int) : Nat × Nat :=
  (n * tenTo (-power), d * tenTo power)

/-- Whether two numbers are equal. -/
def same (x y : Binary64) : Bool := !x.lt y && !y.lt x

/-- The decimal with at most `count` digits that reads back as `n / d`, if there is
one; of two the nearer. -/
def decimalOf? (n d count : Nat) : Option (Nat × Int) :=
  let power := magnitude n d - count
  let (a, b) := onGrid n d power
  let fits := fun q => same (ofDecimal false q power) (ofRatio false n d)
  let below := a / b
  let close := nearest a b
  if fits close then some (close, power)
  else if fits below then some (below, power)
  else if fits (below + 1) then some (below + 1, power)
  else none

/-- Digits and the power of ten that they are multiplied with, for a number
`m * 2 ^ e` that is not zero. Seventeen digits are always enough. -/
def shortest (m : Nat) (e : Int) : Nat × Int :=
  let (n, d) := scaled m 1 (-e)
  ((List.range 17).findSome? fun i => decimalOf? n d (i + 1)).getD
    (nearest n d, 0)

end TaskLine.Binary64
