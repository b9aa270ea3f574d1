import TaskLine.Task
import TaskLine.Text.LetterCase

/-!
# Pieces

The pieces of a line in its canonical form, and how they are written:

    head, parent link, item type, text, states, other wrappers,
    assignee → delegate, metadata, date tokens, block reference

Of the other wrappers those with an order tag come first, by the tag without
regard to case. A delegate is written only behind an assignee.
-/

namespace TaskLine

/-- What is to become of an assignment when a line is formatted. -/
inductive Override where
  /-- The line keeps what it has. -/
  | keep
  /-- The slot is set to this wrapper; none, or an empty one, clears it. -/
  | set (html : Option Text)
deriving DecidableEq, Repr

/-- A text that is there and is not empty. -/
def present (s : Option Text) : Option Text := s.filter (!·.isEmpty)

/-- The wrapper of a slot when the override has been applied. -/
def Override.resolve (current : Option Text) : Override → Option Text
  | .keep => current
  | .set html => present html

/-- The overrides of the two assignment slots. -/
structure Overrides where
  assignee : Override := .keep
  delegate : Override := .keep
deriving DecidableEq, Repr

/-- The pieces of a line in the order in which they are written. -/
structure Pieces where
  head : Text
  text : Text
  parentLink : Option Text := none
  itemType : Option Text := none
  state : Option Text := none
  others : List Text := []
  assignee : Option Text := none
  delegate : Option Text := none
  metadata : List Text := []
  dates : List Text := []
  blockId : Option Text := none
deriving DecidableEq, Repr

namespace Pieces

/-- Texts with a space between each two; no fragment if there is no text. -/
def spaced (parts : List Text) : List Text :=
  if parts.isEmpty then [] else [Text.join [' '] parts]

/-- The fragment for the people: an assignee, or an assignee and a delegate. -/
def people (p : Pieces) : List Text :=
  match present p.assignee, present p.delegate with
  | some a, some d => [a ++ [' ', DateToken.arrow, ' '] ++ d]
  | some a, none => [a]
  | none, _ => []

/-- The fragments behind the head, in the order in which they are written. -/
def fragments (p : Pieces) : List Text :=
  (present p.parentLink).toList ++ (present p.itemType).toList
    ++ (present (some p.text)).toList ++ (present p.state).toList
    ++ spaced p.others ++ p.people ++ spaced p.metadata ++ spaced p.dates
    ++ (present p.blockId).toList

/-- Append a fragment, with a space between unless there is one already. -/
def append (out fragment : Text) : Text :=
  if out.getLast? = some ' ' then out ++ fragment else out ++ ' ' :: fragment

/-- The line that the pieces make. -/
def write (p : Pieces) : Text :=
  Line.guardTag (Text.collapse (p.fragments.foldl append p.head))

end Pieces

namespace Task

/-- Whether one of the other wrappers may stand before another: those with an
order tag first, by the tag in lower case. -/
def otherBefore (a b : Markup.Template) : Bool :=
  match a.order, b.order with
  | some x, some y => Text.atMost (Text.lower x) (Text.lower y)
  | some _, none => true
  | none, some _ => false
  | none, none => true

/-- The pieces of a task with the overrides applied. -/
def pieces (task : Task) (ov : Overrides) : Pieces :=
  let s := task.slots
  let assignee := ov.assignee.resolve (s.assignee.map (·.html))
  let delegate := ov.delegate.resolve (s.delegate.map (·.html))
  { head := task.head
    text := task.text
    parentLink := s.parentLink.map (·.html)
    itemType := s.itemType.map (·.html)
    state := present (some (Text.join [' '] (s.states.map (·.html))))
    others := (sortBy otherBefore s.others).map (·.html)
    assignee
    delegate := if (present assignee).isSome then delegate else none
    metadata := s.metadata.map (·.html)
    dates := task.dates
    blockId := task.blockId }

end Task

end TaskLine
