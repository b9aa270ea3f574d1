import TaskLine.Binary64
import TaskLine.Text.Basic

/-!
# Delays

A delay is given in milliseconds and kept in seconds, in binary floating point. What
is waited is the whole number of milliseconds next to it: the given one, unless that
has more digits than the format.
-/

namespace TaskLine.Delay

/-- Why a delay cannot be kept. -/
inductive Fault where
  | tooLarge
deriving DecidableEq, Repr

def Fault.message : Fault → Text
  | .tooLarge => "int too large to convert to float".toList

/-- The milliseconds to wait for a given delay; a negative one counts as none. -/
def ofMillis (given : Int) : Except Fault Nat :=
  match Binary64.ofInt (max 0 given) with
  | .finite m e =>
    match (Binary64.quotient m e 1000).scale 1000 with
    | .finite m e => .ok (Binary64.round m e).toNat
    | _ => .error .tooLarge
  | _ => .error .tooLarge

end TaskLine.Delay
