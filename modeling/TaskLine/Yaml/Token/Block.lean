import TaskLine.Text.Digits
import TaskLine.Yaml.Cursor

/-!
# Block scalars

A vertical bar or a greater-than sign begins a scalar that consists of the lines
below, as far as they are indented. Behind a bar line breaks are kept; behind the
other sign a break between two lines that begin with a word counts as a space. The
head can say how far the lines are indented, and what becomes of the breaks at the
end.
-/

namespace TaskLine.Yaml

/-- What becomes of the line breaks at the end of a block. -/
inductive Chomping where
  /-- One is kept. -/
  | clip
  | strip
  | keep
deriving DecidableEq, Repr

/-- The head of a block. -/
structure BlockHead where
  chomping : Chomping := .clip
  /-- How much further than around it the lines are indented. -/
  increment : Option Nat := none
deriving Repr

def chomping? (c : Char) : Option Chomping :=
  if c = '+' then some .keep else if c = '-' then some .strip else none

/-- A digit in the head; a zero is not allowed. -/
def increment? (c : Char) : Option Nat :=
  if '1' ≤ c && c ≤ '9' then some (c.toNat - 48) else none

/-- Read a head, which has at most one sign and one digit in any order, up to the end
of its line. -/
def readHead? (c : Cursor) : Option (BlockHead × Cursor) :=
  let marks := c.rest.takeWhile fun d => !endsPart (some d)
  let head : Option BlockHead :=
    match marks with
    | [] => some {}
    | [d] =>
      match chomping? d, increment? d with
      | some chomping, _ => some { chomping }
      | none, some n => some { increment := some n }
      | none, none => none
    | [d, e] =>
      match chomping? d, increment? e, increment? d, chomping? e with
      | some chomping, some n, _, _ => some { chomping, increment := some n }
      | _, _, some n, some chomping => some { chomping, increment := some n }
      | _, _, _, _ => none
    | _ => none
  head.bind fun head => ((c.skip marks.length).skipLine?).map fun c => (head, c)

/-- The empty lines that begin here: their breaks, the column that the furthest of
them or the next line reaches with its spaces, and the place behind those. -/
def leadingLines (furthest : Nat) : Nat → Cursor → Text × Nat × Cursor
  | 0, c => ([], furthest, c)
  | n + 1, c =>
    let c := c.skipWhile (· = ' ')
    let furthest := max furthest c.column
    match c.lineBreak? with
    | some (b, c) =>
      let (breaks, furthest, c) := leadingLines furthest n c
      (b :: breaks, furthest, c)
    | none => ([], furthest, c)

/-- Leave out spaces up to a column. -/
def skipIndent (indent : Nat) (c : Cursor) : Cursor :=
  c.skip ((c.rest.take (indent - c.column)).takeWhile (· = ' ')).length

/-- The lines that are empty up to a column: their breaks, and the place in the next
line. -/
def emptyLines (indent : Nat) : Nat → Cursor → Text × Cursor
  | 0, c => ([], c)
  | n + 1, c =>
    let c := skipIndent indent c
    match c.lineBreak? with
    | some (b, c) =>
      let (breaks, c) := emptyLines indent n c
      (b :: breaks, c)
    | none => ([], c)

/-- The lines of a block. -/
structure BlockLines where
  text : Text := []
  /-- The break of the last line, if it has one. -/
  lastBreak : Text := []
  /-- The breaks of the empty lines at the end. -/
  trailing : Text
  place : Cursor

/-- Read the lines of a block from a place on; `breaks` are those of the empty lines
in front of it. -/
def readLines (folds : Bool) (indent : Nat) (breaks : Text) : Nat → Cursor → BlockLines
  | 0, c => { trailing := breaks, place := c }
  | n + 1, c =>
    let isLine := fun (c : Cursor) => c.column = indent && !c.isAtEnd
    let isWord := fun (c : Cursor) => match c.peek with
      | some d => !isBlank d
      | none => true
    if isLine c then
      let (line, behind) := c.takeWhile fun d => !isBreak d
      let (lastBreak, behind) : Text × Cursor := match behind.lineBreak? with
        | some (b, behind) => ([b], behind)
        | none => ([], behind)
      let (next, behind) := emptyLines indent (behind.rest.length + 1) behind
      if isLine behind then
        let joint :=
          if folds && lastBreak = ['\n'] && isWord c && isWord behind then
            if next.isEmpty then [' '] else []
          else lastBreak
        let tail := readLines folds indent next n behind
        { tail with text := breaks ++ line ++ joint ++ tail.text }
      else { text := breaks ++ line, lastBreak, trailing := next, place := behind }
    else { trailing := breaks, place := c }

/-- Read a block scalar, its sign included. The lines around it are indented to
columns before `floor`. -/
def readBlock? (floor : Nat) (c : Cursor) : Option (Text × Cursor) :=
  let folds := c.peek = some '>'
  (readHead? c.next).map fun (head, c) =>
    let floor := max floor 1
    let (indent, breaks, c) : Nat × Text × Cursor := match head.increment with
      | some n =>
        let indent := floor + n - 1
        (indent, emptyLines indent (c.rest.length + 1) c)
      | none =>
        let (breaks, furthest, c) := leadingLines 0 (c.rest.length + 1) c
        (max floor furthest, breaks, c)
    let lines := readLines folds indent breaks (c.rest.length + 1) c
    let ending := match head.chomping with
      | .strip => []
      | .clip => lines.lastBreak
      | .keep => lines.lastBreak ++ lines.trailing
    (lines.text ++ ending, lines.place)

end TaskLine.Yaml
