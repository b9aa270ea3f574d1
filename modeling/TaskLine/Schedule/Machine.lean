import TaskLine.Formatter.File
import TaskLine.Formatter.Line
import TaskLine.Schedule.Warning

/-!
# The scheduler

The scheduler decides when formatting runs. Requests are let through by the
switches and delayed, so that of several requests in a row only the last one
runs. At most one run is under way; a request that comes meanwhile is queued in
the only place that there is, and follows it. A run over a whole file pauses now
and then; a newer request for the file stops it.

Nothing happens by itself: what can go on waits in a list of jobs, and what has
to wait for a time is a timer. A step carries out the jobs that are there, with
the timers that are due.

This module has the state of the scheduler and what it needs to know of the
world around it.
-/

namespace TaskLine

/-! ## The world around -/

/-- What came of subscribing to an event. -/
inductive Subscription where
  /-- There is a way to unsubscribe. -/
  | held
  /-- There is none. -/
  | loose
  | failed (message : Text)
deriving DecidableEq, Repr

/-- What the scheduler needs to know of the world around it. -/
structure Setup (σ : Type) where
  formatter : Formatter σ
  /-- All lines of the host that events come from, if it can tell them. -/
  allLines? : Option (σ → Option (List Text)) := none
  /-- Subscribe to an event, if the host offers it. -/
  subscribe? : HostEvent → Option (σ → Subscription × σ) := fun _ => none
  /-- Unsubscribe; the result is a message if that failed. -/
  unsubscribe : HostEvent → σ → Option Text × σ := fun _ s => (none, s)
  /-- Read the switches: warnings, and the switches or a message. -/
  switches : σ → List Warning × Except Text Flags := fun _ => ([], .ok {})
  /-- How long a request is delayed, in milliseconds. -/
  delay : Nat := 300
  /-- Which calls of the formatter fail, by their number. -/
  failing : Nat → Bool := fun _ => false
  /-- Whether the scheduler has a loop of its own. -/
  ownLoop : Bool := false
  /-- What is done when the one who waits to leave may go. -/
  leave : σ → σ := id

/-! ## State -/

/-- One who waits for the scheduler to come to rest. -/
inductive Waiter where
  /-- Someone who only wants to know. -/
  | observer (n : Nat)
  /-- Someone who ends everything and leaves. -/
  | leaver
deriving DecidableEq, Repr

/-- A job that can go on. -/
inductive Job where
  /-- A run of the given number begins or goes on. -/
  | run (id : Nat)
  /-- The time of a timer has come. -/
  | expire (id : Nat)
  /-- Someone asks to be told when the scheduler is at rest. -/
  | ask (waiter : Waiter)
  /-- Someone is told that the scheduler came to rest. -/
  | wake (waiter : Waiter)
deriving DecidableEq, Repr

/-- A request that waits for its time. -/
structure Timer where
  id : Nat
  due : Nat
  request : Request
deriving DecidableEq, Repr

/-- A run that is not over. -/
structure Run where
  id : Nat
  request : Request
  /-- Where a run over a whole file pauses; nothing before a run has begun. -/
  paused : Option FileRun := none
  /-- Whether the run was told to stop. -/
  stopped : Bool := false
deriving Repr

/-- A call of the formatter, as it is recorded. -/
inductive Call where
  | current
  | line (n : Int)
  | file (lines : Nat)
  /-- A run over a whole file came to its end. -/
  | fileEnd (changed stopped : Bool)
deriving DecidableEq, Repr

/-- The end of a file run is recorded, but it is no call of its own. -/
def Call.isEntry : Call → Bool
  | .fileEnd _ _ => false
  | _ => true

/-- What the scheduler is up to. -/
inductive Activity where
  | idle
  | scheduled
  | running
deriving DecidableEq, Repr

def Activity.name : Activity → Text
  | .idle => "idle".toList
  | .scheduled => "scheduled".toList
  | .running => "running".toList

/-- The scheduler and the world around it. -/
structure Machine (σ : Type) where
  world : σ
  /-- The time, in milliseconds. -/
  now : Nat := 0
  /-- What can go on. -/
  ready : List Job := []
  /-- The timers that were neither cancelled nor fired. -/
  timers : List Timer := []
  /-- The runs that are not over. -/
  runs : List Run := []
  /-- The next number for a timer or a run. -/
  nextId : Nat := 0
  attached : Bool := false
  disposed : Bool := false
  /-- The timer that the scheduler holds. -/
  armed : Option Nat := none
  /-- The request that is being run. -/
  running : Option Request := none
  /-- The request that follows. -/
  queued : Option Request := none
  /-- The run whose stop signal the scheduler holds. -/
  signal : Option Nat := none
  /-- Whether the scheduler has declared itself at rest. -/
  idle : Bool := true
  /-- The events that the scheduler can unsubscribe from. -/
  held : List HostEvent := []
  /-- Those who wait for the scheduler to come to rest. -/
  waiting : List Waiter := []
  /-- The observers who were told, the last one first. -/
  told : List Nat := []
  /-- The calls of the formatter, the last one first. -/
  calls : List Call := []
  /-- The warnings, the last one first. -/
  warnings : List Warning := []

namespace Machine

variable {σ : Type}

/-- What the scheduler is up to. -/
def activity (m : Machine σ) : Activity :=
  if m.running.isSome then .running
  else if m.armed.isSome then .scheduled
  else .idle

/-- Whether nothing is scheduled, running or queued. -/
def atRest (m : Machine σ) : Bool :=
  m.armed.isNone && m.running.isNone && m.queued.isNone

def warn (w : Warning) (m : Machine σ) : Machine σ := { m with warnings := w :: m.warnings }

/-- How many calls of the formatter were made. -/
def callCount (m : Machine σ) : Nat := m.calls.countP Call.isEntry

/-- Declare whether the scheduler is at rest. When it comes to rest all who wait
are told. -/
def refresh (m : Machine σ) : Machine σ :=
  if m.atRest then
    if m.idle then m
    else { m with idle := true, ready := m.ready ++ m.waiting.map .wake, waiting := [] }
  else { m with idle := false }

/-- Read the switches. When they cannot be read all are off. -/
def readSwitches (c : Setup σ) (m : Machine σ) : Flags × Machine σ :=
  let (ws, flags) := c.switches m.world
  let m := ws.foldl (fun m w => m.warn w) m
  match flags with
  | .ok flags => (flags, m)
  | .error message => (.off, m.warn (.settingsFailed message))

/-- Cancel the armed timer. -/
def disarm (m : Machine σ) : Machine σ :=
  match m.armed with
  | none => m
  | some id => { m with armed := none, timers := m.timers.filter fun t => t.id != id }

/-- Tell the run whose stop signal is held to stop. -/
def stopRun (m : Machine σ) : Machine σ :=
  match m.signal with
  | none => m
  | some id =>
    { m with
      signal := none
      runs := m.runs.map fun t => if t.id = id then { t with stopped := true } else t }

end Machine

end TaskLine
