import TaskLine.Binary64
import TaskLine.Text.Digits

/-!
# Numbers as scalars

The whole number or fraction that a scalar of that kind stands for. Underscores do
not count. A tag can give any text the kind of a number, so more forms are read
here than a plain scalar can have.
-/

namespace TaskLine.Yaml

/-- The value of a digit of any script, or of a letter in base sixteen. -/
def anyDigit? (c : Char) : Option Nat := (Text.digitValue? c).orElse fun _ => Text.hexValue? c

/-- A whole number of a base that is a power of two, which no limit applies to. A zero
and the letter of the base may stand in front of it. -/
def readInBase? (base : Nat) (letter : Char) (s : Text) : Option Int :=
  let (negative, s) := Text.splitSign (s.dropWhile Text.isMargin)
  let s := match s with
    | z :: c :: cs =>
      if Text.digitValue? z = some 0 && Text.lowerAscii c = letter then cs else z :: c :: cs
    | s => s
  let ds := (s.reverse.dropWhile Text.isMargin).reverse
  if ds.isEmpty then none
  else
    (ds.mapM fun c => (anyDigit? c).bind fun d => if d < base then some d else none).map fun ds =>
      Text.signed negative (Text.ofDigits base ds)

/-- The whole number that a scalar stands for. -/
def int? (s : Text) : Option Int :=
  let (negative, body) := Text.splitSign (s.filter (· ≠ '_'))
  let found : Option Int := match body with
    | ['0'] => some 0
    | '0' :: 'b' :: ds => readInBase? 2 'b' ds
    | '0' :: 'x' :: ds => readInBase? 16 'x' ds
    | '0' :: _ => readInBase? 8 'o' body
    | _ =>
      if body.contains ':' then
        ((Text.splitOn ':' body).mapM Text.readInt?).map (List.foldl (fun n d => 60 * n + d) 0)
      else Text.readInt? body
  found.map fun n => if negative then -n else n

/-! ## Fractions -/

/-- A number of the format binary64 with its sign, which a zero has as well. -/
structure SignedFloat where
  negative : Bool
  /-- The number without its sign. -/
  size : Binary64
deriving DecidableEq, Repr

namespace SignedFloat

/-- The number itself; the sign of a zero is lost. -/
def value (x : SignedFloat) : Binary64 := if x.negative then x.size.neg else x.size

def withSign (negative : Bool) (x : SignedFloat) : SignedFloat :=
  { x with negative := negative != x.negative }

end SignedFloat

/-- Digits in any script at the start, their values, and what follows. -/
def digitsAt (s : Text) : List Nat × Text :=
  let ds := s.takeWhile fun c => (Text.digitValue? c).isSome
  (ds.filterMap Text.digitValue?, s.drop ds.length)

/-- The power of ten at the end of a decimal. -/
def power? : Text → Option Int
  | [] => some 0
  | e :: s =>
    let (negative, ds) := Text.splitSign s
    let (values, rest) := digitsAt ds
    if (e = 'e' || e = 'E') && !values.isEmpty && rest.isEmpty then
      some (Text.signed negative (Text.ofDigits 10 values))
    else none

/-- A decimal without sign: digits with a point before, between or behind them, and
perhaps a power of ten. -/
def decimal? (s : Text) : Option Binary64 :=
  let (whole, rest) := digitsAt s
  let (fraction, rest) := match rest with
    | '.' :: cs => digitsAt cs
    | _ => ([], rest)
  if whole.isEmpty && fraction.isEmpty then none
  else
    (power? rest).map fun power =>
      .ofDecimal false (Text.ofDigits 10 (whole ++ fraction)) (power - fraction.length)

/-- A fraction with white space around it, or a word for one that is not finite. -/
def readFloat? (s : Text) : Option SignedFloat :=
  let (negative, s) := Text.splitSign (s.dropWhile Text.isMargin)
  let body := (s.reverse.dropWhile Text.isMargin).reverse
  let word := String.ofList (body.map Text.lowerAscii)
  if word = "inf" ∨ word = "infinity" then some ⟨negative, .infinite false⟩
  else if word = "nan" then some ⟨negative, .nan⟩
  else (decimal? body).map fun size => ⟨negative, size⟩

/-- The value of parts in base sixty, the last part first. Each part is multiplied and
added in floating point, from the last one on. -/
def sixtyFloat? (weight : Int) (sum : Binary64) : List Text → Option Binary64
  | [] => some sum
  | p :: ps =>
    (readFloat? p).bind fun d =>
      match Binary64.ofInt weight with
      | .finite _ _ => sixtyFloat? (60 * weight) (sum.add (d.value.scale weight)) ps
      | _ => none

/-- The fraction that a scalar stands for. -/
def float? (s : Text) : Option SignedFloat :=
  let (negative, body) := Text.splitSign ((s.filter (· ≠ '_')).map Text.lowerAscii)
  let found : Option SignedFloat :=
    if body = ".inf".toList then some ⟨false, .infinite false⟩
    else if body = ".nan".toList then some ⟨false, .nan⟩
    else if body.contains ':' then
      (sixtyFloat? 1 (.finite 0 0) (Text.splitOn ':' body).reverse).map fun x =>
        if x.lt (.finite 0 0) then ⟨true, x.neg⟩ else ⟨false, x⟩
    else readFloat? body
  found.map (·.withSign negative)

end TaskLine.Yaml
