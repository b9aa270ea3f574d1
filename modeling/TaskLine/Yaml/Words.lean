import TaskLine.Text.Basic

/-!
# The content of scalars

An escape can name a number that is no character: half of a surrogate pair. A
scalar that holds such numbers is kept as its numbers.
-/

namespace TaskLine.Yaml

/-- The content of a scalar. -/
inductive Words where
  | text (s : Text)
  /-- Code numbers, of which some are no characters. -/
  | codes (ns : List Nat)
deriving DecidableEq, Repr

namespace Words

/-- The content with given code numbers. -/
def ofCodes (ns : List Nat) : Words :=
  if ns.all fun n => decide n.isValidChar then .text (ns.map Char.ofNat) else .codes ns

end Words

end TaskLine.Yaml
