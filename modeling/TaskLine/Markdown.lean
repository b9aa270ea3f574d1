import TaskLine.Text.Basic

/-!
# Markdown text

A document is read as lines that remember how they were terminated. Every kind
of line break splits - CR LF, LF and CR, longest first - and all of them are
written back as the one that dominates.
-/

namespace TaskLine

/-- A document as lines. -/
structure Markdown where
  lines : List Text := []
  /-- The line break between lines. -/
  newline : Text := ['\n']
  /-- Whether a line break follows the last line. -/
  trailing : Bool := true
deriving DecidableEq, Repr

namespace Markdown

/-- What is said when a document that belongs to no file is to be written. -/
def noPath : Text := "MarkdownFile has no path to write to".toList

/-- How many CR LF pairs a text has. -/
def countPairs : Text → Nat
  | '\r' :: '\n' :: cs => countPairs cs + 1
  | _ :: cs => countPairs cs
  | [] => 0

/-- The dominant line break: CR LF if there are more of them than of LFs that
stand alone, and LF otherwise. -/
def dominantBreak (s : Text) : Text :=
  if countPairs s > s.count '\n' - countPairs s then ['\r', '\n'] else ['\n']

/-- The first line of a text and the lines behind it. -/
def splitBreaks : Text → Text × List Text
  | [] => ([], [])
  | '\r' :: '\n' :: cs =>
    let (line, lines) := splitBreaks cs
    ([], line :: lines)
  | c :: cs =>
    let (line, lines) := splitBreaks cs
    if c = '\n' || c = '\r' then ([], line :: lines) else (c :: line, lines)

/-- Whether a text ends in a line break. -/
def endsInBreak (s : Text) : Bool := s.getLast? = some '\n' || s.getLast? = some '\r'

/-- Read a text. The empty text has no lines. -/
def ofText (s : Text) : Markdown :=
  let lines := if s.isEmpty then [] else (splitBreaks s).1 :: (splitBreaks s).2
  let trailing := endsInBreak s
  { lines := if trailing then lines.dropLast else lines
    newline := dominantBreak s
    trailing }

/-- The text that the document is written as. -/
def text (m : Markdown) : Text :=
  if m.lines.isEmpty then []
  else Text.join m.newline m.lines ++ (if m.trailing then m.newline else [])

end Markdown

end TaskLine
