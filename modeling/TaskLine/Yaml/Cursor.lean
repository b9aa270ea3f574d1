import TaskLine.Yaml.Char

/-!
# Places in a document

A cursor is a place in a text, with all that layout depends on: how many
characters came before, on which line it is and in which column. Moving on never
looks back, so what is left is always an end of the text.
-/

namespace TaskLine.Yaml

/-- A place in a text. -/
structure Cursor where
  /-- What follows. -/
  rest : Text
  index : Nat := 0
  line : Nat := 0
  column : Nat := 0
deriving Repr

namespace Cursor

/-- The character that comes next. -/
def peek (c : Cursor) : Option Char := c.rest.head?

def isAtEnd (c : Cursor) : Bool := c.rest.isEmpty

/-- Behind one character. A byte order mark takes no column. -/
def next (c : Cursor) : Cursor :=
  match c.rest with
  | [] => c
  | d :: ds =>
    if isBreak d then { rest := ds, index := c.index + 1, line := c.line + 1, column := 0 }
    else
      { rest := ds, index := c.index + 1, line := c.line
        column := if d.toNat = 0xFEFF then c.column else c.column + 1 }

/-- Behind some characters. -/
def skip : Nat → Cursor → Cursor
  | 0, c => c
  | n + 1, c => skip n c.next

/-- The start of a text; a byte order mark there does not count. -/
def ofText (s : Text) : Cursor :=
  let c : Cursor := { rest := s }
  match c.peek with
  | some d => if d.toNat = 0xFEFF then c.next else c
  | none => c

/-- The characters of a kind that come next, and the place behind them. -/
def takeWhile (p : Char → Bool) (c : Cursor) : Text × Cursor :=
  let s := c.rest.takeWhile p
  (s, c.skip s.length)

def skipWhile (p : Char → Bool) (c : Cursor) : Cursor := (c.takeWhile p).2

/-- If a line ends here: what the break counts as, and the start of the next line.
The separators of Unicode count as themselves, other breaks as a line feed. -/
def lineBreak? (c : Cursor) : Option (Char × Cursor) :=
  match c.peek with
  | some d =>
    if isBreak d then some (if 0x2028 ≤ d.toNat then d else '\n', c.next) else none
  | none => none

/-- Whether a mark of three characters stands here as a word of its own at the start
of a line. -/
def isAtMark (mark : Char) (c : Cursor) : Bool :=
  c.column = 0 && c.rest.take 3 = [mark, mark, mark] && endsWord c.rest[3]?

/-- Whether a document begins or ends here by a mark. -/
def isAtDocumentMark (c : Cursor) : Bool := c.isAtMark '-' || c.isAtMark '.'

/-- Leave out spaces and a comment. -/
def skipComment (c : Cursor) : Cursor :=
  let c := c.skipWhile (· = ' ')
  if c.peek = some '#' then c.skipWhile fun d => !isBreak d else c

/-- Leave out what is left of a line, if that is nothing but spaces and a comment. -/
def skipLine? (c : Cursor) : Option Cursor :=
  let c := c.skipComment
  match c.lineBreak? with
  | some (_, c) => some c
  | none => if c.isAtEnd then some c else none

/-- Leave out the empty lines that begin here, and the blanks before the first word
behind them: the breaks passed, and the place of that word. There are no breaks if a
document begins or ends by a mark on the way; the place is that of the mark then. -/
def skipBreaks (isBlank : Char → Bool) : Nat → Cursor → Option Text × Cursor
  | 0, c => (none, c)
  | n + 1, c =>
    if c.isAtDocumentMark then (none, c)
    else
      let c := c.skipWhile isBlank
      match c.lineBreak? with
      | some (b, c) =>
        let (breaks, c) := skipBreaks isBlank n c
        (breaks.map (b :: ·), c)
      | none => (some [], c)

/-- What a line break in a word counts as, together with the breaks of the empty
lines behind it: a line feed alone counts as a space, one that others follow as
nothing. -/
def folded (first : Char) (others : Text) : Text :=
  if first ≠ '\n' then first :: others
  else if others.isEmpty then [' ']
  else others

end Cursor

end TaskLine.Yaml
