import TaskLine.Binary64
import TaskLine.Host

/-!
# Formatters

A formatter works on the lines of a host, with a clock to decide when progress
is shown and a pace: how often a run over a whole file looks at the clock, and
after how many lines it pauses.
-/

namespace TaskLine

/-- How a run over a whole file proceeds. -/
structure Pace where
  chunk : Int := 50
  pauseEvery : Int := 50
  /-- After how many seconds progress is shown. -/
  showAfter : Binary64 := .ofInt 1
  /-- The least number of seconds between two updates. -/
  minInterval : Binary64 := .finite 1 (-2)
deriving Repr

namespace Pace

/-- After how many lines progress is looked at; at least one. -/
def chunkSize (p : Pace) : Nat := (max 1 p.chunk).toNat

/-- After how many lines a run pauses; at least one. -/
def stretch (p : Pace) : Nat := (max 1 p.pauseEvery).toNat

theorem stretch_pos (p : Pace) : 0 < p.stretch := by
  simp only [stretch]; omega

/-- Whether a run pauses behind a line. -/
def pausesAfter (p : Pace) (i : Nat) : Bool := i != 0 && i % p.stretch == 0

end Pace

/-- A formatter for a host. -/
structure Formatter (σ : Type) where
  host : Host σ
  pace : Pace := {}
  /-- Read the clock, in seconds. -/
  clock : σ → Binary64 × σ

end TaskLine
