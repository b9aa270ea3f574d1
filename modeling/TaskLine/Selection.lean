/-!
# Selections

A selection is a pair of offsets, and nothing keeps a host from reporting them
reversed or out of range, so both are integers.
-/

namespace TaskLine

/-- A selection: where it starts and where it ends. -/
structure Selection where
  start : Int
  stop : Int
deriving DecidableEq, Repr

namespace Selection

/-- A caret: the selection of nothing at an offset. -/
def caret (pos : Int) : Selection := ⟨pos, pos⟩

/-- How much is selected; a reversed selection has no width. -/
def width (s : Selection) : Int := max 0 (s.stop - s.start)

/-- Whether start and end differ. -/
def isRange (s : Selection) : Bool := s.start != s.stop

/-- The selection moved by an offset. -/
def shift (s : Selection) (delta : Int) : Selection := ⟨s.start + delta, s.stop + delta⟩

/-- The selection between two offsets in either order. -/
def between (a b : Int) : Selection := if a ≤ b then ⟨a, b⟩ else ⟨b, a⟩

end Selection

/-- An offset brought into a text of the given length. -/
def clampTo (length : Nat) (pos : Int) : Int := max 0 (min pos length)

end TaskLine
