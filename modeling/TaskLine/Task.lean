import TaskLine.DateToken
import TaskLine.Line
import TaskLine.Markup.Template

/-!
# Tasks

A task line taken apart: its head, the text the user wrote, the wrappers by the
place each takes, the date tokens in order, and the block reference. Wrappers
are taken out first, so a date inside a wrapper is not found a second time.
-/

namespace TaskLine

open Markup (Template)

/-- The wrappers of a line by place. A place for a single wrapper goes to the
first one that claims it, and later ones are dropped. -/
structure Slots where
  parentLink : Option Template := none
  itemType : Option Template := none
  assignee : Option Template := none
  delegate : Option Template := none
  states : List Template := []
  others : List Template := []
  metadata : List Template := []
deriving DecidableEq, Repr

namespace Slots

/-- Give a template its place. A place for a single one that is taken is not given again. -/
def claim (s : Slots) (t : Template) : Slots :=
  match t.place with
  | .parentLink => { s with parentLink := s.parentLink.or (some t) }
  | .itemType => { s with itemType := s.itemType.or (some t) }
  | .assignee => { s with assignee := s.assignee.or (some t) }
  | .delegate => { s with delegate := s.delegate.or (some t) }
  | .state => { s with states := s.states ++ [t] }
  | .metadata => { s with metadata := s.metadata ++ [t] }
  | .other => { s with others := s.others ++ [t] }

/-- Sort templates into their places, one behind the other. -/
def ofTemplates (ts : List Template) : Slots := ts.foldl claim {}

theorem foldl_claim (ts : List Template) (s : Slots) :
    ts.foldl claim s =
      { parentLink := s.parentLink.or (ts.find? (·.place = .parentLink))
        itemType := s.itemType.or (ts.find? (·.place = .itemType))
        assignee := s.assignee.or (ts.find? (·.place = .assignee))
        delegate := s.delegate.or (ts.find? (·.place = .delegate))
        states := s.states ++ ts.filter (·.place = .state)
        others := s.others ++ ts.filter (·.place = .other)
        metadata := s.metadata ++ ts.filter (·.place = .metadata) } := by
  induction ts generalizing s with
  | nil => simp
  | cons t ts ih =>
    rw [List.foldl_cons, ih]
    cases hplace : t.place <;> simp [claim, hplace]

/-- A place for a single template goes to the first of its kind, and the others hold
all of their kind. -/
theorem ofTemplates_eq (ts : List Template) :
    ofTemplates ts =
      { parentLink := ts.find? (·.place = .parentLink)
        itemType := ts.find? (·.place = .itemType)
        assignee := ts.find? (·.place = .assignee)
        delegate := ts.find? (·.place = .delegate)
        states := ts.filter (·.place = .state)
        others := ts.filter (·.place = .other)
        metadata := ts.filter (·.place = .metadata) } :=
  foldl_claim ts {}

/-- Read wrappers and sort them into their places. -/
def ofWrappers (ws : List Text) : Slots := ofTemplates (ws.map Template.read)

/-- The templates that have a place, place by place. -/
def templates (s : Slots) : List Template :=
  s.parentLink.toList ++ s.itemType.toList ++ s.states ++ s.others
    ++ s.assignee.toList ++ s.delegate.toList ++ s.metadata

/-- The wrappers that have a place, place by place. -/
def wrappers (s : Slots) : List Text := s.templates.map (·.html)

end Slots

/-- The parts of a line around its checkbox and its block reference. -/
structure Frame where
  head : Text
  /-- All that stands behind the head. -/
  rest : Text
  /-- The rest without the block reference. -/
  content : Text
  blockId : Option Text
deriving DecidableEq, Repr

/-- Take the frame of a task line off. -/
def Frame.read? (line : Text) : Option Frame :=
  (Line.splitHead? line).map fun (head, rest) =>
    let (content, blockId) := Line.splitBlockId rest
    { head, rest, content, blockId }

/-- A task line taken apart. -/
structure Task where
  head : Text
  text : Text
  blockId : Option Text := none
  slots : Slots := {}
  dates : List Text := []
deriving DecidableEq, Repr

namespace Task

/-- The user's text in a line without wrappers: date tokens and arrows go, and
white space collapses; one trailing space survives. -/
def plainText (s : Text) : Text :=
  Text.collapse (Text.replace DateToken.arrow ' ' (DateToken.remove s))

/-- Take a task line apart; none if the line is no task line. -/
def read? (line : Text) : Option Task :=
  (Frame.read? line).map fun frame =>
    let bare := Markup.removeWrappers frame.content
    { head := frame.head
      text := plainText bare
      blockId := frame.blockId
      slots := .ofWrappers (Markup.wrappers frame.content)
      dates := DateToken.ordered bare }

/-- The wrappers of a line that have a place, place by place; none for a line
that is no task line. -/
def wrappersOf (line : Text) : List Text :=
  match read? line with
  | some task => task.slots.wrappers
  | none => []

end Task

end TaskLine
