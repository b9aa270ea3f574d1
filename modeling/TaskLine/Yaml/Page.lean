import TaskLine.Yaml.Char

/-!
# Pages

A page is filled from top to bottom, line by line. It knows what the next piece
depends on: the column, whether a space is wanted before a word, and whether the
line holds nothing but marks of the layout so far. Lines are broken at a space once
they are longer than eighty columns.
-/

namespace TaskLine.Yaml

/-- What was written, and where it has led. -/
structure Page where
  /-- The pieces written, last one first. -/
  pieces : List Text := []
  column : Nat := 0
  /-- Whether a word needs no space before it here. -/
  spaced : Bool := true
  /-- Whether the line holds only spaces and marks of the layout. -/
  bare : Bool := true

namespace Page

def text (p : Page) : Text := p.pieces.reverse.flatten

/-- The column after which a line is broken. -/
def width : Nat := 80

def isFull (p : Page) : Bool := width < p.column

def put (s : Text) (p : Page) : Page :=
  { p with pieces := s :: p.pieces, column := p.column + s.length }

/-- Write a word, set apart from what comes before it. -/
def mark (s : Text) (p : Page) : Page :=
  { (if p.spaced then p.put s else p.put (' ' :: s)) with spaced := false, bare := false }

/-- Write a mark of the layout. A line that holds only such marks stays bare. -/
def layoutMark (c : Char) (p : Page) : Page := { p.mark [c] with bare := p.bare }

/-- Write something that belongs to the word before it. -/
def join (s : Text) (p : Page) : Page := { p.put s with spaced := false, bare := false }

def breakLine (b : Char) (p : Page) : Page :=
  { p.put [b] with column := 0, spaced := true, bare := true }

/-- Go to a column, on a new line unless this one is bare up to there. -/
def indent (column : Nat) (p : Page) : Page :=
  let p :=
    if !p.bare || column < p.column || (p.column = column && !p.spaced) then p.breakLine '\n'
    else p
  if p.column < column then { p.put (Text.spaces (column - p.column)) with spaced := true } else p

/-- Break a line within a word. -/
def wrap (column : Nat) (p : Page) : Page := { p.indent column with spaced := false, bare := false }

end Page

end TaskLine.Yaml
