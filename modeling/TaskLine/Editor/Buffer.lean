import TaskLine.Editor.TextBuffer

/-!
# Buffers

A library of text buffers to run an editor with. Lines end at line feeds only. A position in the
text has a row, the number of line feeds before it, and a column in that row. Changing the text
takes the anchor away; moving the cursor leaves it.
-/

namespace TaskLine

/-- A text with a cursor. -/
structure Buffer where
  text : Text
  pos : Nat
  /-- The other end of the selection; nothing keeps it inside the text. -/
  anchor : Option Int := none
deriving DecidableEq, Repr

namespace Buffer

/-! ## Rows and columns -/

/-- The lines of a text. -/
def linesOf (s : Text) : List Text := Text.splitOn '\n' s

/-- The row of a position. -/
def rowOf (s : Text) (i : Nat) : Nat := (s.take i).count '\n'

/-- The column of a position. Behind the end of the text it grows on. -/
def colOf (s : Text) (i : Nat) : Nat :=
  ((s.take i).reverse.takeWhile (· ≠ '\n')).length + (i - s.length)

/-- The line that a position is in. -/
def lineOf (s : Text) (i : Nat) : Text := (linesOf s)[rowOf s i]?.getD []

/-- Where a row begins. -/
def rowStart (s : Text) (row : Nat) : Nat :=
  ((linesOf s).take row).foldr (fun l n => l.length + 1 + n) 0

/-- The position at a row and a column, both brought into the text. -/
def indexOf (s : Text) (row : Nat) (col : Int) : Nat :=
  let row := min row ((linesOf s).length - 1)
  rowStart s row + (clampTo ((linesOf s)[row]?.getD []).length col).toNat

def lines (b : Buffer) : List Text := linesOf b.text

def row (b : Buffer) : Nat := rowOf b.text b.pos

def col (b : Buffer) : Nat := colOf b.text b.pos

/-! ## Editing -/

/-- Set text and cursor together. -/
def put (text : Text) (pos : Nat) (b : Buffer) : Buffer :=
  { text, pos, anchor := if text = b.text then b.anchor else none }

/-- Move the cursor to a position, brought into the text. -/
def moveTo (pos : Int) (b : Buffer) : Buffer := { b with pos := (clampTo b.text.length pos).toNat }

/-- Insert a text at the cursor, which goes behind it. -/
def insert (s : Text) (b : Buffer) : Buffer :=
  b.put (b.text.take b.pos ++ s ++ b.text.drop b.pos) (b.pos + s.length)

/-- What is told when a buffer has become another one at one go. -/
def edited (b b' : Buffer) : Edited Buffer :=
  { buffer := b', moved := if b'.pos = b.pos then none else some b'
    changed := b'.text != b.text }

/-- Set the text. A cursor beyond its end moves there first, while the old text is still in
place. -/
def setText (s : Text) (b : Buffer) : Edited Buffer :=
  let b' := if s.length < b.pos then b.moveTo s.length else b
  { b.edited b' with buffer := b'.put s b'.pos, changed := s != b.text }

@[default_instance]
instance : TextBuffer Buffer where
  ofText text pos := { text, pos }
  text := Buffer.text
  pos := Buffer.pos
  selected? b := b.anchor.map fun a => .between b.pos a
  linesOf := linesOf
  rowOf := rowOf
  colOf := colOf
  lineOf := lineOf
  indexOf := indexOf
  put s i b := b.edited (b.put s i)
  moveTo i b := b.edited (b.moveTo i)
  setText := setText
  insert s b := b.edited (b.insert s)
  newline b := b.edited (b.insert ('\n' :: (lineOf b.text b.pos).takeWhile Text.isSpace))
  setAnchor anchor b := { b with anchor }

end Buffer

end TaskLine
