import TaskLine.Editor.Buffer
import TaskLine.Editor.StatusBar
import TaskLine.Listeners

/-!
# Panes

A pane shows a buffer of some library and is the host of the formatter. It tells its
listeners when the user moves the cursor to another row. What the formatter writes
goes through a barrier behind which cursor moves are not reported; afterwards the
pane knows the row that the cursor is on.
-/

namespace TaskLine

/-- A buffer on the screen. -/
structure Pane (β : Type := Buffer) where
  buffer : β
  /-- The row on which the cursor was last known to be. -/
  lastRow : Nat
  /-- Whether the pane hears of cursor moves. -/
  opened : Bool := true
  /-- Whether the formatter is writing. -/
  mutating : Bool := false
  progress : Option StatusBar.Progress := none
  /-- How often the pane asked to be drawn again. -/
  redraws : Nat := 0
  /-- Whether the text changed since it was saved. -/
  dirty : Bool := false
  listeners : Listeners := {}
deriving Repr

namespace Pane

open TextBuffer (lines row col line selection indexOf)

variable {β : Type} [TextBuffer β]

/-- A pane over a buffer. -/
def ofBuffer (b : β) : Pane β := { buffer := b, lastRow := row b }

/-- A pane with a text and a cursor. -/
def ofText (text : Text) (pos : Nat) : Pane β := ofBuffer (TextBuffer.ofText text pos)

/-! ## Cursor moves -/

/-- The cursor has moved. -/
def cursorMoved (p : Pane β) : Pane β × Option Notice :=
  if !p.opened || p.mutating then (p, none)
  else
    let row := row p.buffer
    ({ p with lastRow := row },
      if row = p.lastRow then none else some (.cursorLineChanged p.lastRow row))

/-- Something was done to the buffer, and the pane hears of it. -/
def become (e : Edited β) (p : Pane β) : Pane β × Option Notice :=
  let p := { p with dirty := p.dirty || e.changed }
  match e.moved with
  | none => ({ p with buffer := e.buffer }, none)
  | some b =>
    let (p, notice) := ({ p with buffer := b } : Pane β).cursorMoved
    ({ p with buffer := e.buffer }, notice)

/-- The pane hears of no more cursor moves. -/
def close (p : Pane β) : Pane β := { p with opened := false }

/-! ## What the user does -/

/-- Put the cursor at a position. -/
def moveTo (pos : Int) (p : Pane β) : Pane β × Option Notice :=
  p.become (TextBuffer.moveTo pos p.buffer)

/-- Insert a text at the cursor. -/
def insert (s : Text) (p : Pane β) : Pane β × Option Notice :=
  p.become (TextBuffer.insert s p.buffer)

/-- Begin a new line with the margin of the present one. -/
def newline (p : Pane β) : Pane β × Option Notice := p.become (TextBuffer.newline p.buffer)

/-- Replace the text. -/
def setText (s : Text) (p : Pane β) : Pane β × Option Notice :=
  p.become (TextBuffer.setText s p.buffer)

/-- Set or take away the other end of the selection. -/
def setAnchor (anchor : Option Int) (p : Pane β) : Pane β :=
  { p with buffer := TextBuffer.setAnchor anchor p.buffer }

/-! ## Reading -/

def currentLine (p : Pane β) : Option CurrentLine :=
  some { text := line p.buffer, number := row p.buffer, selection := some (selection p.buffer) }

def lineAt (n : Int) (p : Pane β) : Option Text :=
  if n < 0 then none else (lines p.buffer)[n.toNat]?

/-! ## Writing -/

def redraw (p : Pane β) : Pane β := { p with redraws := p.redraws + 1 }

/-- Write lines, with the cursor at a row and a column that are brought into
them, and with an anchor in the cursor's row if its column is given. With the
pane comes what its listeners are told. -/
def write (lines : List Text) (row : Nat) (col : Int) (anchor : Option Int) (p : Pane β) :
    Pane β × Option Notice :=
  let text := Text.join ['\n'] lines
  let row := min row (lines.length - 1)
  let pos := indexOf β text row (clampTo (lines[row]?.getD []).length col)
  let (p, notice) := become (TextBuffer.put text pos p.buffer) { p with mutating := true }
  let p := match anchor with
    | some a => p.setAnchor (some (indexOf β text row a))
    | none => p
  (redraw { p with mutating := false, lastRow := TextBuffer.row p.buffer }, notice)

/-- Whether there is a line of a number. -/
def has (n : Int) (p : Pane β) : Bool := decide (0 ≤ n) && decide (n < (lines p.buffer).length)

/-- Write a line and leave the cursor where it is. -/
def writeLine (n : Int) (line : Text) (p : Pane β) : Pane β × Option Notice :=
  if p.has n then
    p.write ((lines p.buffer).set n.toNat line) (row p.buffer) (col p.buffer) none
  else (p, none)

/-- Write a line. In the cursor's line the selection is set as well. -/
def writeSelecting (n : Int) (line : Text) (s : Selection) (p : Pane β) : Pane β × Option Notice :=
  if p.has n && n = row p.buffer then
    p.write ((lines p.buffer).set n.toNat line) n.toNat s.stop
      (if s.isRange then some (min s.start line.length) else none)
  else p.writeLine n line

/-- Write all lines and leave the cursor where it is. -/
def writeAll (lines : List Text) (p : Pane β) : Pane β × Option Notice :=
  p.write (if lines.isEmpty then [[]] else lines) (row p.buffer) (col p.buffer) none

/-- Replace a line. Nothing is told of what the formatter writes. -/
def replaceLine (n : Int) (line : Text) (p : Pane β) : Pane β := (p.writeLine n line).1

/-- Replace a line and, in the cursor's line, the selection. -/
def replaceSelecting (n : Int) (line : Text) (s : Selection) (p : Pane β) : Pane β :=
  (p.writeSelecting n line s).1

/-- Replace all lines. -/
def replaceAll (lines : List Text) (p : Pane β) : Pane β := (p.writeAll lines).1

/-! ## Progress -/

def progressStart (title : Text) (total : Int) (p : Pane β) : Pane β :=
  redraw { p with progress := some ⟨title, 0, total⟩ }

def progressUpdate (current total : Int) (p : Pane β) : Pane β :=
  redraw { p with progress := some ⟨(p.progress.map (·.title)).getD [], current, total⟩ }

def progressEnd (p : Pane β) : Pane β := redraw { p with progress := none }

/-! ## As a host -/

/-- A write that cannot fail. -/
def written (p : Pane β) : Attempt RunFault (Pane β) Unit := ⟨.ok (), p⟩

/-- The pane as a host. -/
def host : Host (Pane β) :=
  { currentLine? := some currentLine
    lineAt? := some lineAt
    replaceLine? := some fun n line p => written (replaceLine n line p)
    replaceSelecting? := some fun n line s p => written (replaceSelecting n line s p)
    replaceAll? := some fun lines p => written (replaceAll lines p)
    progressStart? := some fun title total => progressStart title total
    progressUpdate? := some fun current total => progressUpdate current total
    progressEnd? := some progressEnd }

/-- The tags of the listeners that a notice reaches. -/
def reached (notice : Notice) (p : Pane β) : List Text := p.listeners.tagsOf notice.event

end Pane

end TaskLine
