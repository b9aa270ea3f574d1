import TaskLine.Clock
import TaskLine.Document
import TaskLine.Schedule.Loop

/-!
# Desks

A document together with a clock and with switches that can be set. A desk is the
state that a formatter for a document works on, and the world of a scheduler that
listens to the document. The events of a desk can be made to misbehave.
-/

namespace TaskLine

/-- A document, a clock and switches. -/
structure Desk where
  document : Document
  clock : Clock := {}
  /-- The switches, or a message if they cannot be read. -/
  switches : Except Text Flags := .ok {}

namespace Desk

/-- What a formatter is not given of the document. -/
structure Limits where
  lacks : List Ability := []
  /-- Whether the current line comes without its selection. -/
  bare : Bool := false
deriving Repr

/-- A formatter for the document. -/
def formatter (limits : Limits) (pace : Pace) : Formatter Desk :=
  let host := Document.host.without fun a => limits.lacks.contains a
  let host := if limits.bare then host.bare else host
  { host := host.within (·.document) fun document d => { d with document }
    pace
    clock := fun d =>
      let (t, clock) := d.clock.read
      (t, { d with clock }) }

/-- What happens when someone subscribes to an event. -/
inductive Conduct where
  | regular
  /-- Subscribing registers the listener and then fails. -/
  | refusing
  /-- Unsubscribing fails and does nothing. -/
  | clinging
  /-- There is no way to unsubscribe. -/
  | loose
deriving DecidableEq, Repr

/-- How a desk is laid out for a scheduler. -/
structure Layout where
  limits : Limits := {}
  pace : Pace := {}
  /-- How long a request is delayed, in milliseconds. -/
  delay : Nat := 300
  conduct : HostEvent → Conduct := fun _ => .regular
  /-- Whether the scheduler is not given the document. -/
  detached : Bool := false
  /-- Whether the document tells the scheduler that it has no lines to tell. -/
  untold : Bool := false
  /-- Whether the scheduler is given the switches. -/
  switched : Bool := true
  failing : List Nat := []
  ownLoop : Bool := false

/-- Subscribe the scheduler to an event. -/
def subscribe (conduct : Conduct) (event : HostEvent) (d : Desk) : Subscription × Desk :=
  let listeners := d.document.listeners.subscribe event event.name
  (match conduct with
    | .regular | .clinging => .held
    | .refusing => .failed ("no ".toList ++ event.name)
    | .loose => .loose,
    { d with document := { d.document with listeners } })

/-- Unsubscribe the scheduler from an event. -/
def unsubscribe (conduct : Conduct) (event : HostEvent) (d : Desk) : Option Text × Desk :=
  match conduct with
  | .clinging => (some ("cannot leave ".toList ++ event.name), d)
  | _ =>
    let listeners := d.document.listeners.unsubscribe event.name
    (none, { d with document := { d.document with listeners } })

/-- The world of a scheduler. -/
def setup (l : Layout) : Setup Desk :=
  let offers := fun a => !l.detached && !l.limits.lacks.contains a
  { formatter := formatter l.limits l.pace
    allLines? :=
      if offers .allLines then
        some fun d => if l.untold then none else some d.document.lines
      else none
    subscribe? := fun e =>
      if offers e.ability then some (subscribe (l.conduct e) e) else none
    unsubscribe := fun e => unsubscribe (l.conduct e) e
    switches := fun d => ([], if l.switched then d.switches else .ok {})
    delay := l.delay
    failing := fun n => l.failing.contains n
    ownLoop := l.ownLoop }

/-- Something happens in the document of a scheduler: its listeners are told, one
after the other. -/
def notify (l : Layout) (live : Bool) (n : Notice) (m : Machine Desk) : Machine Desk :=
  (m.world.document.reached n).foldl (fun m _ => m.notice (setup l) live n) m

/-- The user moves the cursor to a line. -/
def moveCursor (l : Layout) (live : Bool) (n : Int) (column : Option Int) (m : Machine Desk) :
    Machine Desk :=
  let (document, left) := m.world.document.moveCursor n column
  let m := { m with world := { m.world with document } }
  match left with
  | some left => notify l live left m
  | none => m

end Desk

end TaskLine
