import TaskLine.Selection
import TaskLine.Text.Basic

/-!
# Libraries of text buffers

An editor keeps its text in a buffer of a library. The library finds the lines of a text and the
row and the column of a position in it, carries out what is done to a buffer, and tells those who
listen when the cursor has moved or the text has changed. Its operations are `TextBuffer`, and what
is relied on of them is `LawfulTextBuffer`: the lines end at line feeds, rows and columns are those
of the lines, text and cursor become what they are set to, and it is told that the cursor has moved
exactly if its position is another one.
-/

namespace TaskLine

/-! ## Operations -/

/-- What comes of something that is done to a buffer. -/
structure Edited (β : Type) where
  buffer : β
  /-- The buffer as those find it who are told that the cursor has moved, if they are. -/
  moved : Option β
  /-- Whether it is told that the text has changed. -/
  changed : Bool

/-- A library of text buffers: how they are read and what can be done to them. -/
class TextBuffer (β : Type) where
  /-- A buffer with a text and the cursor at a position. -/
  ofText : Text → Nat → β
  text : β → Text
  /-- The position of the cursor. -/
  pos : β → Nat
  /-- The positions between which the text is selected, the smaller one first. -/
  selected? : β → Option Selection
  /-- The lines of a text. -/
  linesOf (β) : Text → List Text
  /-- The row of a position in a text. -/
  rowOf (β) : Text → Nat → Nat
  /-- The column of a position in its row. -/
  colOf (β) : Text → Nat → Nat
  /-- The line that a position is in. -/
  lineOf (β) : Text → Nat → Text
  /-- The position at a row and at a column that is brought into the row. -/
  indexOf (β) : Text → Nat → Int → Nat
  /-- Set text and cursor together. -/
  put : Text → Nat → β → Edited β
  /-- Move the cursor to a position, brought into the text. -/
  moveTo : Int → β → Edited β
  /-- Set the text, with the cursor brought into it first. -/
  setText : Text → β → Edited β
  /-- Insert a text at the cursor, which goes behind it. -/
  insert : Text → β → Edited β
  /-- Begin a new line with the margin of the present one. -/
  newline : β → Edited β
  /-- Set or take away the other end of the selection. -/
  setAnchor : Option Int → β → β

namespace TextBuffer

variable {β : Type} [TextBuffer β]

def lines (b : β) : List Text := linesOf β (text b)

/-- The row of the cursor. -/
def row (b : β) : Nat := rowOf β (text b) (pos b)

/-- The column of the cursor. -/
def col (b : β) : Nat := colOf β (text b) (pos b)

/-- The line that the cursor is on. -/
def line (b : β) : Text := lineOf β (text b) (pos b)

/-- The selection in the cursor's line, if it lies in that line as a whole; otherwise the caret.
Before the text there is no line. -/
def selection (b : β) : Selection :=
  match selected? b with
  | none => .caret (col b)
  | some range =>
    if 0 ≤ range.start ∧ rowOf β (text b) range.start.toNat = row b
        ∧ rowOf β (text b) range.stop.toNat = row b then
      ⟨colOf β (text b) range.start.toNat, colOf β (text b) range.stop.toNat⟩
    else .caret (col b)

/-! ## Laws -/

/-- The position where the line begins that has some lines above it. -/
def startOf (above : List Text) : Nat := (above.flatMap (· ++ ['\n'])).length

/-- A position is that of a row and of a column in the line there. -/
structure At (lines : List Text) (row col pos : Nat) (line : Text) : Prop where
  here : lines[row]? = some line
  within : col ≤ line.length
  pos_eq : pos = startOf (lines.take row) + col

/-- What a new line begins with: a line break and the white space at the start of the present
line. -/
def margin (b : β) : Text := '\n' :: (line b).takeWhile Text.isSpace

end TextBuffer

open TextBuffer

/-- It is told that the cursor has moved exactly if its position is another one, and then the buffer
is found as it is left. -/
def Edited.Announces {β : Type} [TextBuffer β] (b : β) (e : Edited β) : Prop :=
  e.moved = if pos e.buffer = pos b then none else some e.buffer

/-- What is relied on of a library of text buffers. -/
class LawfulTextBuffer (β : Type) [TextBuffer β] : Prop where
  pos_ofText (s : Text) (i : Nat) (hi : i ≤ s.length) : pos (ofText s i : β) = i
  linesOf_eq (s : Text) : linesOf β s = Text.splitOn '\n' s
  /-- A position in a text is that of its row and its column. -/
  at_position (s : Text) (i : Nat) (hi : i ≤ s.length) :
    At (linesOf β s) (rowOf β s i) (colOf β s i) i (lineOf β s i)
  /-- What is found for a row and a column is their position. -/
  at_indexOf (s : Text) (row : Nat) (col : Int) (line : Text)
    (hrow : (linesOf β s)[row]? = some line) :
    At (linesOf β s) row (clampTo line.length col).toNat (indexOf β s row col) line
  indexOf_le (s : Text) (row : Nat) (col : Int) : indexOf β s row col ≤ s.length
  text_put (s : Text) (i : Nat) (b : β) (hi : i ≤ s.length) : text (put s i b).buffer = s
  pos_put (s : Text) (i : Nat) (b : β) (hi : i ≤ s.length) : pos (put s i b).buffer = i
  announces_put (s : Text) (i : Nat) (b : β) (hi : i ≤ s.length) : (put s i b).Announces b
  text_moveTo (i : Int) (b : β) : text (moveTo i b).buffer = text b
  announces_moveTo (i : Int) (b : β) : (moveTo i b).Announces b
  text_newline (b : β) (hb : pos b ≤ (text b).length) :
    text (newline b).buffer = (text b).take (pos b) ++ margin b ++ (text b).drop (pos b)
  pos_newline (b : β) (hb : pos b ≤ (text b).length) :
    pos (newline b).buffer = pos b + (margin b).length
  announces_newline (b : β) (hb : pos b ≤ (text b).length) : (newline b).Announces b
  text_setAnchor (anchor : Option Int) (b : β) : text (setAnchor anchor b) = text b
  pos_setAnchor (anchor : Option Int) (b : β) : pos (setAnchor anchor b) = pos b

end TaskLine
