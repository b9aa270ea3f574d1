import TaskLine.Text.Basic

/-!
# The frame of a task line

A task line begins with a list marker and a checkbox, may end with a block
reference, and may be indented. This module splits these off and holds the two
rules on spacing: inner white space collapses, and a line that ends in a tag
ends in exactly one space.
-/

namespace TaskLine.Line

/-! ## The checkbox -/

/-- What follows the closing bracket of a checkbox, given what stands behind its
opening one. The box holds one character with white space around it. If that
character is a `]`, a second `]` must follow; otherwise the first one closes a
box that holds a white space character. -/
def afterBox? (s : Text) : Option Text :=
  match Text.trimLeft s with
  | [] => none
  | c :: cs =>
    match Text.trimLeft cs with
    | ']' :: rest => some rest
    | _ => if c = ']' && (Text.trimLeft s).length < s.length then some cs else none

/-- What follows the list marker, the checkbox and the white space behind it. -/
def afterCheckbox? (s : Text) : Option Text :=
  match Text.trimLeft s with
  | [] => none
  | c :: cs =>
    if c = '-' || c = '*' then
      match Text.trimLeft cs with
      | '[' :: rest => (afterBox? rest).map Text.trimLeft
      | _ => none
    else none

/-- A task line's head - list marker, checkbox and the white space around them -
and the rest of it; none if the line is no task line. -/
def splitHead? (s : Text) : Option (Text × Text) :=
  (afterCheckbox? s).map fun rest => (s.take (s.length - rest.length), rest)

/-! ## The block reference -/

/-- The characters of a block reference behind its caret. -/
def isBlockChar (c : Char) : Bool :=
  Text.isAsciiLetter c || Text.isAsciiDigit c || c == '-'

/-- Take a block reference off the end of a text. One space is left in its
place and in place of the white space around it. -/
def splitBlockId (s : Text) : Text × Option Text :=
  let back := s.reverse.dropWhile Text.isSpace
  let name := back.takeWhile isBlockChar
  match back.dropWhile isBlockChar with
  | '^' :: front =>
    if name.isEmpty then (s, none)
    else ((front.dropWhile Text.isSpace).reverse ++ [' '], some ('^' :: name.reverse))
  | _ => (s, none)

/-! ## Indentation and spacing -/

/-- The white space in front of a line. -/
def indent (s : Text) : Text := s.takeWhile Text.isSpace

/-- The line behind its indentation. -/
def body (s : Text) : Text := s.dropWhile Text.isSpace

/-- Whether the last character that is no white space is a `>`. -/
def endsInTag (s : Text) : Bool := (s.reverse.dropWhile Text.isSpace).head? = some '>'

/-- A line that ends in a tag ends in exactly one space behind it, so that the
reader of the line can go on typing outside the tag. -/
def guardTag (s : Text) : Text := if endsInTag s then Text.trimRight s ++ [' '] else s

end TaskLine.Line
