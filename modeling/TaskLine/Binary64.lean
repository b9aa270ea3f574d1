/-!
# Binary floating point

The numbers of the IEEE format binary64, as far as clocks, fractions and
settings need them. A finite number is an integer times a power of two. Every
operation is done exactly and its result rounded once, to the nearest number of
the format; of two equally near ones the one with an even mantissa is taken. The
sign of zero is not kept.
-/

namespace TaskLine

/-- A number of the format. -/
inductive Binary64 where
  /-- `mantissa * 2 ^ exponent`. -/
  | finite (mantissa exponent : Int)
  | infinite (negative : Bool)
  | nan
deriving DecidableEq, Repr

namespace Binary64

/-- The whole number nearest to `n / d`; halves go to the even neighbour. -/
def nearest (n d : Nat) : Nat :=
  let q := n / d
  let r := n % d
  if 2 * r < d then q
  else if d < 2 * r then q + 1
  else if q % 2 = 0 then q
  else q + 1

/-- A power of two; one for a negative exponent. -/
def twoTo (e : Int) : Nat := Nat.pow 2 e.toNat

/-- A power of ten; one for a negative exponent. -/
def tenTo (e : Int) : Nat := Nat.pow 10 e.toNat

/-- Numerator and denominator of `n / d / 2 ^ e`. -/
def scaled (n d : Nat) (e : Int) : Nat × Nat :=
  (n * twoTo (-e), d * twoTo e)

/-- The exponent that gives the mantissa of `n / d` its 53 digits, or the least
exponent of the format. -/
def exponentOf (n d : Nat) : Int :=
  let e : Int := (Nat.log2 n : Int) - (Nat.log2 d : Int) - 52
  let (a, b) := scaled n d e
  max (if a < b * twoTo 52 then e - 1 else e) (-1074)

/-- The number nearest to `n / d`, with a sign. -/
def ofRatio (negative : Bool) (n d : Nat) : Binary64 :=
  if n = 0 then .finite 0 0
  else
    let e := exponentOf n d
    let (a, b) := scaled n d e
    let m := nearest a b
    if e > 971 || (e = 971 && m ≥ twoTo 53) then .infinite negative
    else .finite (if negative then -(m : Int) else m) e

/-- The number nearest to the quotient of two whole numbers, if the format holds
a number of that size. The divisor is not zero. -/
def divide? (a b : Int) : Option Binary64 :=
  match ofRatio (decide (a < 0) != decide (b < 0)) a.natAbs b.natAbs with
  | .infinite _ => none
  | x => some x

/-- The number nearest to `digits * 10 ^ power`, with a sign. -/
def ofDecimal (negative : Bool) (digits : Nat) (power : Int) : Binary64 :=
  if digits = 0 then .finite 0 0
  else if power > 400 then .infinite negative
  else if power + (Nat.log2 digits : Int) < -1200 then .finite 0 0
  else ofRatio negative (digits * tenTo power) (tenTo (-power))

def ofInt (n : Int) : Binary64 := ofRatio (n < 0) n.natAbs 1

/-- Mantissas of two finite numbers at their lesser exponent, and that exponent. -/
def aligned (m₁ e₁ m₂ e₂ : Int) : Int × Int × Int :=
  let e := min e₁ e₂
  (m₁ * twoTo (e₁ - e), m₂ * twoTo (e₂ - e), e)

/-- The number nearest to `m * 2 ^ e`. -/
def ofScaled (m e : Int) : Binary64 :=
  ofRatio (m < 0) (m.natAbs * twoTo e) (twoTo (-e))

/-- Difference. -/
def sub : Binary64 → Binary64 → Binary64
  | .finite m₁ e₁, .finite m₂ e₂ =>
    let (a, b, e) := aligned m₁ e₁ m₂ e₂
    ofScaled (a - b) e
  | .infinite s, .finite _ _ => .infinite s
  | .finite _ _, .infinite s => .infinite !s
  | .infinite s, .infinite t => if s = t then .nan else .infinite s
  | _, _ => .nan

/-- The number with the other sign. -/
def neg : Binary64 → Binary64
  | .finite m e => .finite (-m) e
  | .infinite s => .infinite !s
  | .nan => .nan

/-- Sum. -/
def add (x y : Binary64) : Binary64 := x.sub y.neg

/-- The number nearest to `m * 2 ^ e / d`; the divisor is not zero. -/
def quotient (m e : Int) (d : Nat) : Binary64 :=
  ofRatio (m < 0) (m.natAbs * twoTo e) (twoTo (-e) * d)

/-- Product of a finite number and a whole one, which is rounded to the format
first. -/
def scale : Binary64 → Int → Binary64
  | .finite m e, n =>
    match ofInt n with
    | .finite m' e' => ofScaled (m * m') (e + e')
    | x => x
  | x, _ => x

/-- Strict order; nothing is less or greater than what is no number. -/
def lt : Binary64 → Binary64 → Bool
  | .finite m₁ e₁, .finite m₂ e₂ =>
    let (a, b, _) := aligned m₁ e₁ m₂ e₂
    a < b
  | .infinite s, .finite _ _ => s
  | .finite _ _, .infinite s => !s
  | .infinite s, .infinite t => s && !t
  | _, _ => false

/-- The whole number between zero and `m * 2 ^ e` that is nearest to the latter. -/
def truncate (m e : Int) : Int :=
  Int.tdiv (m * twoTo e) (twoTo (-e))

/-- The whole number nearest to `m * 2 ^ e`; halves go to the even neighbour. -/
def round (m e : Int) : Int :=
  let n := nearest (m.natAbs * twoTo e) (twoTo (-e))
  if m < 0 then -(n : Int) else n

end Binary64

end TaskLine
