import TaskLine.Listeners

/-!
# Documents

A document in memory: lines, a cursor line and a selection in it. It is the host
of batch runs, and it keeps a record of what it was asked to write and of the
progress that it was told, so that runs can be observed.

Writes to lines that do not exist are ignored. Replacing a line cuts the
selection to the new length if it is the cursor's line.
-/

namespace TaskLine

/-- A write that a document was asked for. -/
inductive WriteRequest where
  | line (n : Int) (text : Text)
  | selecting (n : Int) (text : Text) (selection : Selection)
  | all (lines : List Text)
deriving DecidableEq, Repr

/-- What a document is told about a run. -/
inductive ProgressEvent where
  | start (title : Text) (total : Nat)
  | update (current total : Nat)
  | finish
deriving DecidableEq, Repr

/-- A document. -/
structure Document where
  lines : List Text
  cursor : Nat := 0
  selection : Option Selection := none
  /-- How many writes were carried out. -/
  writes : Nat := 0
  /-- Every write asked for, the last one first. -/
  requests : List WriteRequest := []
  /-- Everything told about progress, the last one first. -/
  progress : List ProgressEvent := []
  listeners : Listeners := {}
deriving Repr

namespace Document

/-- A line number brought into a document of some lines; the first line if there
are none. -/
def clampLine (count : Nat) (n : Int) : Nat := (min n (count - 1)).toNat

/-- The document of some lines; there is always one. -/
def ofLines (lines : List Text) (cursor : Int) (selection : Option Selection) : Document :=
  let lines := if lines.isEmpty then [[]] else lines
  { lines, cursor := clampLine lines.length cursor, selection }

/-! ## Reading -/

def lineAt (n : Int) (d : Document) : Option Text := if n < 0 then none else d.lines[n.toNat]?

/-- The line of the cursor. Without a selection the caret is at its end. -/
def currentLine (d : Document) : Option CurrentLine :=
  (d.lineAt d.cursor).map fun line =>
    { text := line, number := d.cursor
      selection := some (d.selection.getD (.caret line.length)) }

/-! ## Writing -/

/-- Whether the document has a line of a number. -/
def has (n : Int) (d : Document) : Bool := decide (0 ≤ n) && decide (n < d.lines.length)

/-- A selection cut to a length. -/
def cutTo (length : Nat) (s : Selection) : Selection := ⟨min s.start length, min s.stop length⟩

def replaceLine (n : Int) (line : Text) (d : Document) : Document :=
  let d := { d with requests := .line n line :: d.requests }
  if d.has n then
    { d with
      lines := d.lines.set n.toNat line
      writes := d.writes + 1
      selection := if n = d.cursor then d.selection.map (cutTo line.length) else d.selection }
  else d

def replaceSelecting (n : Int) (line : Text) (selection : Selection) (d : Document) : Document :=
  let d := { d with requests := .selecting n line selection :: d.requests }
  if d.has n then
    { d with
      lines := d.lines.set n.toNat line
      writes := d.writes + 1
      selection := if n = d.cursor then some selection else d.selection }
  else d

def replaceAll (lines : List Text) (d : Document) : Document :=
  let kept := if lines.isEmpty then [[]] else lines
  { d with
    requests := .all lines :: d.requests
    lines := kept
    writes := d.writes + 1
    cursor := min d.cursor (kept.length - 1) }

def tell (e : ProgressEvent) (d : Document) : Document := { d with progress := e :: d.progress }

/-! ## What the user does -/

/-- Move the cursor to a line, with a caret at a column if one is given. The
notice says which line was left, unless it is the same one. -/
def moveCursor (n : Int) (column : Option Int) (d : Document) : Document × Option Notice :=
  let next := clampLine d.lines.length n
  ({ d with cursor := next, selection := column.map Selection.caret },
    if d.cursor = next then none else some (.cursorLineChanged d.cursor next))

/-- The tags of the listeners that a notice reaches. -/
def reached (notice : Notice) (d : Document) : List Text := d.listeners.tagsOf notice.event

/-! ## As a host -/

/-- A write that cannot fail. -/
def written (d : Document) : Attempt RunFault Document Unit := ⟨.ok (), d⟩

/-- The document as a host. -/
def host : Host Document :=
  { currentLine? := some currentLine
    lineAt? := some lineAt
    replaceLine? := some fun n line d => written (replaceLine n line d)
    replaceSelecting? := some fun n line sel d => written (replaceSelecting n line sel d)
    replaceAll? := some fun lines d => written (replaceAll lines d)
    progressStart? := some fun title total => tell (.start title total)
    progressUpdate? := some fun current total => tell (.update current total)
    progressEnd? := some (tell .finish) }

end Document

/-- A document host whose current line comes without a selection, if it is to. -/
def Host.bare {σ : Type} (h : Host σ) : Host σ :=
  { h with
    currentLine? := h.currentLine?.map fun f s =>
      (f s).map fun c => { c with selection := none } }

end TaskLine
