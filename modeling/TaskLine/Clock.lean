import TaskLine.Formatter.Basic

/-!
# Clocks

A clock whose readings are laid out beforehand, in seconds. The last reading
repeats; a clock without readings stands at zero.
-/

namespace TaskLine

/-- The readings that are still to come. -/
structure Clock where
  readings : List Binary64 := []
deriving Repr

/-- Read the clock. -/
def Clock.read (c : Clock) : Binary64 × Clock :=
  match c.readings with
  | [] => (.finite 0 0, c)
  | [t] => (t, c)
  | t :: rest => (t, ⟨rest⟩)

/-- A formatter for a host that has a clock beside it. -/
def Formatter.clocked {σ : Type} (host : Host σ) (pace : Pace) : Formatter (σ × Clock) :=
  { host := host.within Prod.fst fun s t => (s, t.2)
    pace
    clock := fun t =>
      let (time, clock) := t.2.read
      (time, t.1, clock) }

end TaskLine
