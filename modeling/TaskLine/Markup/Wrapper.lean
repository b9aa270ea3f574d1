import TaskLine.Chunk
import TaskLine.Markup.Tag
import TaskLine.Text.WordChar

/-!
# Wrappers

A wrapper is a `span` element whose opening tag carries the attribute
`data-template-key`. Wrappers may hold further spans, so the scanner walks from
tag to tag and counts how deep it is. A wrapper that is never closed runs to
the end of the text. A tag outside wrappers is passed over as a whole, quoted
values included.
-/

namespace TaskLine.Markup

/-- The attribute that makes a span a wrapper. -/
def keyName : Text := "data-template-key".toList

/-- Whether a text begins with the key attribute, in any letter case: the name,
white space, and an equals sign. -/
def beginsKey (s : Text) : Bool :=
  match Text.afterFold? keyName s with
  | some rest => (Text.trimLeft rest).head? = some '='
  | none => false

/-- Whether the key attribute stands at some word boundary of a tag; `before`
is the character in front. -/
def carriesKeyFrom (before : Option Char) : Text → Bool
  | [] => false
  | c :: cs => (Text.boundary before c && beginsKey (c :: cs)) || carriesKeyFrom (some c) cs

/-- Whether a tag carries the attribute that makes a span a wrapper. -/
def carriesKey (tag : Text) : Bool := carriesKeyFrom none tag

/-- The depth behind a tag. -/
def depthAfter (depth : Nat) (s : Text) : Nat :=
  if beginsSpan s then depth + 1 else if beginsSpanEnd s then depth - 1 else depth

/-- How many characters belong to a wrapper that is open `depth` spans deep at
the front of a text whose first `skip` characters belong to a tag already
counted. -/
def bodyLength : Nat → Nat → Text → Nat
  | _, _, [] => 0
  | depth, skip + 1, _ :: cs => bodyLength depth skip cs + 1
  | 0, 0, _ :: _ => 0
  | depth + 1, 0, c :: cs =>
    if c = '<' then
      bodyLength (depthAfter (depth + 1) (c :: cs)) (tagLength .bare (c :: cs) - 1) cs + 1
    else bodyLength (depth + 1) 0 cs + 1

/-- Reads one chunk: a wrapper, another tag as a whole, or a single character
of text. -/
def readWrapper (c : Char) (cs : Text) : Bool × Nat :=
  if c = '<' then
    let s := c :: cs
    let n := tagLength .bare s
    if beginsSpan s && carriesKey (s.take n) then
      (true, n - 1 + bodyLength 1 0 (s.drop n))
    else (false, n - 1)
  else (false, 0)

/-- The chunks of a text, its wrappers marked. -/
def chunks (s : Text) : List Chunk := Chunk.scan readWrapper s

/-- The wrappers of a text, in order. -/
def wrappers (s : Text) : List Text := Chunk.found (chunks s)

/-- Where the wrappers stand: start and end offsets. -/
def wrapperRanges (s : Text) : List (Nat × Nat) := Chunk.ranges 0 (chunks s)

/-- The text with one space in place of each wrapper. -/
def removeWrappers (s : Text) : Text := Chunk.cleared (chunks s)

/-- The text with its wrappers overwritten by spaces, all offsets kept. -/
def blankWrappers (s : Text) : Text := Chunk.blanked (chunks s)

end TaskLine.Markup
