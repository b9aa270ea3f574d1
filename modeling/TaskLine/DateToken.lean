import TaskLine.Chunk
import TaskLine.Order

/-!
# Date tokens

Dates and snoozes are written into a task line as short tokens that begin with
an emoji. Seven shapes are known. Each shape is looked for on its own, from the
left, without overlaps; `ordered` sorts what all of them find by a fixed rank,
and within a rank by the order of the shapes.

Removing tokens works shape by shape on what the shapes before have left, so a
later shape can match a text that the earlier ones have changed.
-/

namespace TaskLine.DateToken

/-! ## The marks -/

/-- The marks that stand before a date. -/
inductive Marker where
  | start
  | scheduled
  | due
  | target
  | completed
  | cancelled
deriving DecidableEq, Repr

/-- The mark of a character, if it is one. -/
def Marker.ofChar? (c : Char) : Option Marker :=
  if c = '🛫' then some .start
  else if c = '⏳' then some .scheduled
  else if c = '📅' then some .due
  else if c = '🎯' then some .target
  else if c = '✅' then some .completed
  else if c = '❌' then some .cancelled
  else none

/-- Where dates with this mark come in the order of tokens; snoozes come in
between, at 5 and 6. -/
def Marker.rank : Marker → Nat
  | .start => 1
  | .scheduled => 2
  | .due => 3
  | .target => 4
  | .completed => 7
  | .cancelled => 8

/-- The mark of a snooze. -/
def snoozeMark : Text := ['💤']

/-- The mark of a snooze for everyone. -/
def snoozeAllMark : Text := ['💤', '⬇', '\ufe0f']

/-- The folder sign that follows the mark of a snooze by folders. -/
def folderMark : Text := ['🗂', '\ufe0f']

/-- What opens the hidden part of a snooze. -/
def hiddenOpen : Text := "<span style=\"display: none\">".toList

/-- What closes the hidden part of a snooze. -/
def hiddenClose : Text := "</span>".toList

/-- The arrow between an assignee and a delegate. -/
def arrow : Char := '→'

/-! ## The parts of a token

Each function gives what follows a part at the front of a text. -/

/-- What follows `n` ASCII digits. -/
def afterDigits? : Nat → Text → Option Text
  | 0, s => some s
  | _ + 1, [] => none
  | n + 1, c :: cs => if Text.isAsciiDigit c then afterDigits? n cs else none

/-- What follows a date of four, two and two digits with hyphens between. -/
def afterDate? (s : Text) : Option Text :=
  (afterDigits? 4 s).bind fun s =>
  (Text.after? ['-'] s).bind fun s =>
  (afterDigits? 2 s).bind fun s =>
  (Text.after? ['-'] s).bind (afterDigits? 2)

/-- What follows white space, of which there must be some, and a date. -/
def afterSpacedDate? : Text → Option Text
  | [] => none
  | c :: cs => if Text.isSpace c then afterDate? (Text.trimLeft cs) else none

/-- What follows a hidden name, which is not empty and holds no `<`. -/
def afterHiddenName? (s : Text) : Option Text :=
  (Text.after? hiddenOpen s).bind fun s =>
    if (s.takeWhile (· ≠ '<')).isEmpty then none
    else Text.after? hiddenClose (s.dropWhile (· ≠ '<'))

/-- What follows a hidden list of folders in brackets; it ends at the first
bracket that the closing tag follows. -/
def afterHiddenList? (s : Text) : Option Text :=
  (Text.after? hiddenOpen s).bind fun s =>
  (Text.after? ['['] s).bind fun s =>
  (Text.find? (']' :: hiddenClose) s).map fun i => s.drop (i + hiddenClose.length + 1)

/-- The rest, if nothing is glued to its front. -/
def unglued? (s : Text) : Option Text :=
  match s.head? with
  | some c => if Text.isSpace c then some s else none
  | none => some s

/-! ## The shapes -/

/-- The shapes of tokens, in the order in which they are looked for. -/
inductive Shape where
  /-- A mark and a date. -/
  | dated
  /-- A snooze for the hidden name, and a date. -/
  | snoozeName
  /-- A snooze for everyone by the hidden name, and a date. -/
  | snoozeAllName
  /-- A snooze for the hidden list of folders. -/
  | snoozeFolders
  /-- A snooze for everyone for the hidden list of folders. -/
  | snoozeAllFolders
  /-- A snooze that stands alone. -/
  | snooze
  /-- A snooze for everyone that stands alone. -/
  | snoozeAll
deriving DecidableEq, Repr

namespace Shape

/-- All shapes in the order in which they are looked for. -/
def all : List Shape :=
  [.dated, .snoozeName, .snoozeAllName, .snoozeFolders, .snoozeAllFolders, .snooze, .snoozeAll]

/-- What follows a token of this shape at the front of a text. -/
def after? : Shape → Text → Option Text
  | .dated, [] => none
  | .dated, c :: cs => if (Marker.ofChar? c).isSome then afterSpacedDate? cs else none
  | .snoozeName, s =>
    (Text.after? snoozeMark s).bind fun s => (afterHiddenName? s).bind afterSpacedDate?
  | .snoozeAllName, s =>
    (Text.after? snoozeAllMark s).bind fun s => (afterHiddenName? s).bind afterSpacedDate?
  | .snoozeFolders, s => (Text.after? (snoozeMark ++ folderMark) s).bind afterHiddenList?
  | .snoozeAllFolders, s => (Text.after? (snoozeAllMark ++ folderMark) s).bind afterHiddenList?
  | .snooze, s => (Text.after? snoozeMark s).bind unglued?
  | .snoozeAll, s => (Text.after? snoozeAllMark s).bind unglued?

/-- Where a token of this shape comes in the order of tokens. -/
def rank : Shape → Text → Nat
  | .dated, token => ((token.head?.bind Marker.ofChar?).map Marker.rank).getD 999
  | .snoozeName, _ | .snoozeFolders, _ | .snooze, _ => 5
  | .snoozeAllName, _ | .snoozeAllFolders, _ | .snoozeAll, _ => 6

/-- Reads one chunk: a token of this shape, or a single character. -/
def read (shape : Shape) (c : Char) (cs : Text) : Bool × Nat :=
  match shape.after? (c :: cs) with
  | some rest => (true, cs.length - rest.length)
  | none => (false, 0)

/-- The chunks of a text, the tokens of this shape marked. -/
def chunks (shape : Shape) (s : Text) : List Chunk := Chunk.scan shape.read s

/-- The tokens of this shape in a text, each with its rank. -/
def tokens (shape : Shape) (s : Text) : List (Nat × Text) :=
  (Chunk.found (shape.chunks s)).map fun t => (shape.rank t, t)

end Shape

/-! ## All shapes together -/

/-- The tokens of all shapes, each with its rank, shape by shape. -/
def found (s : Text) : List (Nat × Text) := Shape.all.flatMap (·.tokens s)

/-- The tokens of a text by rank, and within a rank as they were found. -/
def ordered (s : Text) : List Text :=
  (sortBy (fun a b => a.1 ≤ b.1) (found s)).map Prod.snd

/-- The text with a space in place of each token, taken out shape by shape. -/
def remove (s : Text) : Text :=
  Shape.all.foldl (fun t shape => Chunk.cleared (shape.chunks t)) s

/-- The text with each token overwritten by spaces, shape by shape. -/
def blank (s : Text) : Text :=
  Shape.all.foldl (fun t shape => Chunk.blanked (shape.chunks t)) s

end TaskLine.DateToken
