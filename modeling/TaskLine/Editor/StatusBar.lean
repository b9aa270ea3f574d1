import TaskLine.Binary64
import TaskLine.Text.Digits

/-!
# The status bar

One line under the editor: the file's name and whether it has unsaved changes,
the progress of a run or else the last message, what the formatter is up to,
and the keys. Fractions of a bar and percentages are computed in binary floating
point; what is too large for it is refused, and so is a bar that is too wide.
-/

namespace TaskLine.StatusBar

/-- The keys, as the bar shows them. -/
def hints : Text := " ^S save  ^F format file  ^L format line  ^Q quit ".toList

/-- The width of the bar in the status line. -/
def barWidth : Int := 20

/-- Why a bar cannot be drawn. -/
inductive Fault where
  | quotientTooLarge
  /-- The width is too large for binary floating point. -/
  | widthTooLarge
  /-- A count of cells has more than 64 bits. -/
  | countTooLarge
  /-- There is no room for so many cells. -/
  | outOfRoom
deriving DecidableEq, Repr

def Fault.message : Fault → Text
  | .quotientTooLarge => "integer division result too large for a float".toList
  | .widthTooLarge => "int too large to convert to float".toList
  | .countTooLarge => "cannot fit 'int' into an index-sized integer".toList
  | .outOfRoom => []

/-- The cells of a bar of the given width that are filled by a fraction, which
is brought between 0 and 1 first. -/
def filledCells (fraction : Binary64) (width : Int) : Except Fault Int :=
  let ratio :=
    if Binary64.lt (.finite 1 0) fraction then .finite 1 0
    else if Binary64.lt fraction (.finite 0 0) then .finite 0 0
    else fraction
  match ratio.scale width with
  | .finite m e => .ok (Binary64.round m e)
  | _ => .error .widthTooLarge

/-- How often a cell is repeated for a count; not at all for a negative one. -/
def repeats (count : Int) : Except Fault Nat :=
  let limit : Int := Nat.pow 2 63
  if count < -limit || limit ≤ count then .error .countTooLarge
  else if (Nat.pow 2 40 : Int) ≤ count then .error .outOfRoom
  else .ok count.toNat

/-- A progress bar. When there is nothing to do it is full. -/
def bar (current total width : Int) : Except Fault Text :=
  if total ≤ 0 then (repeats width).map fun n => List.replicate n '#'
  else
    match Binary64.divide? current total with
    | none => .error .quotientTooLarge
    | some fraction => do
      let filled ← filledCells fraction width
      let full ← repeats filled
      let left ← repeats (width - filled)
      return List.replicate full '#' ++ List.replicate left '-'

/-- How much is done, in percent; all of it when there is nothing to do. -/
def percent (current total : Int) : Except Fault Int :=
  if total = 0 then .ok 100
  else
    match Binary64.divide? (current * 100) total with
    | some (.finite m e) => .ok (Binary64.truncate m e)
    | _ => .error .quotientTooLarge

/-- A run that shows its progress. -/
structure Progress where
  title : Text
  current : Int
  total : Int
deriving DecidableEq, Repr

/-- What the status bar shows. -/
structure View where
  /-- The name of the file, if the text belongs to one. -/
  name : Option Text
  dirty : Bool := false
  message : Text := []
  progress : Option Progress := none
  /-- What the formatter is up to. -/
  state : Text := "idle".toList
deriving Repr

/-- A text with a space on both sides. -/
def padded (s : Text) : Text := ' ' :: s ++ [' ']

/-- The fragment about progress. -/
def progressFragment (p : Progress) : Except Fault (Text × Text) :=
  match percent p.current p.total, bar p.current p.total barWidth with
  | .error e, _ => .error e
  | _, .error e => .error e
  | .ok n, .ok cells =>
    .ok ("class:status.progress".toList,
      padded (p.title ++ " [".toList ++ cells ++ "] ".toList ++ Text.ofInt n ++ ['%']))

/-- The fragments of the status bar, each with its style. -/
def fragments (v : View) : Except Fault (List (Text × Text)) :=
  let name := v.name.getD "[untitled]".toList ++ (if v.dirty then " *".toList else [])
  let middle : Except Fault (List (Text × Text)) :=
    match v.progress with
    | some p => (progressFragment p).map fun f => [f]
    | none =>
      if v.message.isEmpty then .ok []
      else .ok [("class:status.message".toList, padded v.message)]
  let state :=
    if v.state = "idle".toList then [] else [("class:status.state".toList, padded v.state)]
  middle.map fun middle =>
    ("class:status.name".toList, padded name) :: middle ++ state
      ++ [("class:status.hint".toList, hints)]

end TaskLine.StatusBar
