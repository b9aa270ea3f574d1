import TaskLine.Order
import TaskLine.Yaml.Base64
import TaskLine.Yaml.Kind
import TaskLine.Yaml.Number

/-!
# Values

What a document says. Scalars are values of their own. Lists, mappings and sets are
objects, which values refer to by number: an object can occur in several places, and
even within itself. Whoever works with objects is given all of them.
-/

namespace TaskLine.Yaml

/-- A value. -/
inductive Value where
  | null
  | bool (b : Bool)
  | int (n : Int)
  | float (x : SignedFloat)
  | text (s : Text)
  /-- A text in which some code numbers are no characters. -/
  | codes (ns : List Nat)
  | bytes (bs : List Nat)
  /-- A moment; the number tells whether two of them are the same one. -/
  | moment (id : Nat) (m : Moment)
  /-- The object of that number. -/
  | object (id : Nat)
deriving DecidableEq, Repr

/-- A list, a mapping or a set. -/
inductive Object where
  | list (items : List Value)
  | mapping (entries : List (Value × Value))
  | set (keys : List Value)
deriving Repr

/-- Objects by their numbers. -/
abbrev Objects := List (Nat × Object)

namespace Value

/-- The value of a text scalar. -/
def ofWords : Words → Value
  | .text s => .text s
  | .codes ns => .codes ns

/-- What a scalar of some kind stands for; nothing if the kind does not have it. The
number is that of the place where it was read. -/
def ofScalar? (kind : Kind) (id : Nat) (words : Words) : Option Value :=
  match kind, words with
  | .null, _ => some .null
  | .text, w => some (ofWords w)
  | .bool, .text s =>
    match String.ofList (s.map Text.lowerAscii) with
    | "yes" | "true" | "on" => some (.bool true)
    | "no" | "false" | "off" => some (.bool false)
    | _ => none
  | .int, .text s => (int? s).map .int
  | .float, .text s => (float? s).map .float
  | .binary, .text s =>
    if s.all fun c => c.toNat < 128 then (Base64.decode? s).map .bytes else none
  | .moment, .text s =>
    (Moment.ofText? (if s.getLast? = some '\n' then s.dropLast else s)).bind fun m =>
      if m.isValid then some (.moment id m) else none
  | _, _ => none

/-! ## Keys -/

/-- The number that a value is in comparisons. -/
def number? : Value → Option Binary64
  | .bool b => some (.finite (if b then 1 else 0) 0)
  | .int n => some (.finite n 0)
  | .float x => some x.value
  | _ => none

/-- The code numbers of a text. -/
def codes? : Value → Option (List Nat)
  | .text s => some (s.map Char.toNat)
  | .codes ns => some ns
  | _ => none

/-- Whether two numbers are the same. What is no number is only the same as itself. -/
def sameNumber (x y : Binary64) : Bool :=
  (x == .nan) == (y == .nan) && !x.lt y && !y.lt x

/-- Whether two values are the same key. Numbers are compared by their size, with
true as one and false as zero; moments by where they lie. -/
def sameKey (a b : Value) : Bool :=
  match a, b with
  | .moment _ m, .moment _ n => m.isComparable n && m.position = n.position
  | _, _ =>
    match a.number?, b.number? with
    | some x, some y => sameNumber x y
    | _, _ => a = b

/-- Whether values can be put in an order: numbers with numbers, texts with texts,
bytes with bytes, and moments that are comparable. -/
def isComparable (a b : Value) : Bool :=
  match a, b with
  | .moment _ m, .moment _ n => m.isComparable n
  | .bytes _, .bytes _ => true
  | _, _ => (a.number?.isSome && b.number?.isSome) || (a.codes?.isSome && b.codes?.isSome)

/-- The order of lists by their first difference. -/
def atMost : List Nat → List Nat → Bool
  | [], _ => true
  | _ :: _, [] => false
  | a :: as, b :: bs => a < b || (a = b && atMost as bs)

/-- Whether a key comes before another one or is the same. -/
def keyAtMost (a b : Value) : Bool :=
  match a, b with
  | .moment _ m, .moment _ n => m.position ≤ n.position
  | .bytes x, .bytes y => atMost x y
  | _, _ =>
    match a.number?, b.number?, a.codes?, b.codes? with
    | some x, some y, _, _ => !y.lt x
    | _, _, some x, some y => atMost x y
    | _, _, _, _ => true

/-- Set the value of a key. A key that is there already keeps its place and its own
form. -/
def putEntry (key value : Value) (entries : List (Value × Value)) : List (Value × Value) :=
  if entries.any fun e => sameKey e.1 key then
    entries.map fun e => if sameKey e.1 key then (e.1, value) else e
  else entries ++ [(key, value)]

/-- The members of a mapping; of equal keys the last value counts. -/
def entriesOf (entries : List (Value × Value)) : List (Value × Value) :=
  entries.foldl (fun es e => putEntry e.1 e.2 es) []

/-- Members in the order of their keys, if those can be put in an order. -/
def sortEntries (entries : List (Value × Value)) : List (Value × Value) :=
  match entries with
  | [] => []
  | e :: _ =>
    if entries.all fun f => isComparable e.1 f.1 then
      sortBy (fun a b => keyAtMost a.1 b.1) entries
    else entries

/-- The number under which a value can occur again. -/
def id? : Value → Option Nat
  | .moment id _ | .object id => some id
  | _ => none

end Value

namespace Object

/-- The members of a mapping as they are written; the members of a set have no
values. -/
def members : Object → List (Value × Value)
  | .list _ => []
  | .mapping entries => Value.sortEntries entries
  | .set keys => Value.sortEntries (keys.map fun k => (k, .null))

/-- The values in an object, in the order in which they are written. -/
def parts : Object → List Value
  | .list items => items
  | o => o.members.flatMap fun e => [e.1, e.2]

/-- All values that a value leads to, itself included. `seen` are the objects that
were met before; every step meets a new one. -/
def reachable (objects : Objects) : (steps : Nat) → (seen : List Nat) → List Value → List Value
  | 0, _, vs => vs
  | n + 1, seen, vs =>
    let fresh := ((vs.filterMap Value.id?).filter fun id => !seen.contains id).eraseDups
    let found := fresh.filterMap fun id => objects.lookup id
    if found.isEmpty then vs
    else vs ++ reachable objects n (fresh ++ seen) (found.flatMap parts)

end Object

/-- Whether a value holds a whole number that is too long to be written. -/
def Value.exceedsDigits (objects : Objects) (v : Value) : Bool :=
  (Object.reachable objects (objects.length + 1) [] [v]).any fun v => match v with
    | .int n => Text.exceedsDigits n
    | _ => false

end TaskLine.Yaml
