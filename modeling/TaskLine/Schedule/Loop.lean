import TaskLine.Schedule.Trigger
import TaskLine.Text.Digits

/-!
# Steps

A step carries out what was ready when it began: the jobs in their order, then
the timers that are due. What becomes ready meanwhile waits for the next step.
The loop settles when a step finds nothing to do, and it is drained when no timer
is left either.
-/

namespace TaskLine

namespace Machine

variable {σ : Type}

/-! ## Runs -/

/-- A run is over: the request that was queued behind it follows. -/
def finishRun (c : Setup σ) (id : Nat) (m : Machine σ) : Machine σ :=
  let pending := m.queued
  let m :=
    { m with
      running := none
      signal := none
      queued := none
      runs := m.runs.filter fun t => t.id != id }
  match pending with
  | none => m.refresh
  | some r => if m.disposed then m.refresh else (m.dispatch c true r).state.refresh

/-- A run is over because it failed. -/
def failRun (c : Setup σ) (t : Run) (message : Text) (m : Machine σ) : Machine σ :=
  finishRun c t.id (m.warn (.runFailed t.request message))

/-- The message of the call of a number that is to fail. -/
def boom (n : Nat) : Text := "boom ".toList ++ Text.ofNat n

/-- Call the formatter: the call is recorded, and some calls fail. -/
def call (c : Setup σ) (t : Run) (entry : Call) (work : Machine σ → Machine σ) (m : Machine σ) :
    Machine σ :=
  let n := m.callCount
  let m := { m with calls := entry :: m.calls }
  if c.failing n then m.failRun c t (boom n) else work m

/-- How far a run over a whole file came. -/
def fileProceeded (c : Setup σ) (t : Run) (stopped : Bool) (o : FileRun.Outcome σ)
    (m : Machine σ) : Machine σ :=
  match o with
  | .paused run world =>
    { m with
      world
      runs := m.runs.map fun u => if u.id = t.id then { u with paused := some run } else u
      ready := m.ready ++ [.run t.id] }
  | .ended changed world =>
    finishRun c t.id { m with world, calls := .fileEnd changed stopped :: m.calls }
  | .failed e world => failRun c t e.message { m with world }

/-- A run for a single line, to its end. -/
def lineFormatted (c : Setup σ) (t : Run) (r : Attempt RunFault σ Bool) (m : Machine σ) :
    Machine σ :=
  match r with
  | ⟨.ok _, world⟩ => finishRun c t.id { m with world }
  | ⟨.error e, world⟩ => failRun c t e.message { m with world }

/-- A run for the whole file begins, if the host can tell its lines. -/
def beginFile (c : Setup σ) (t : Run) (m : Machine σ) : Machine σ :=
  match c.allLines?.bind fun f => f m.world with
  | none => m.finishRun c t.id
  | some lines =>
    call c t (.file lines.length)
      (fun m =>
        m.fileProceeded c t false
          (c.formatter.startFile {} (lines.map some) false m.world))
      { m.stopRun with signal := some t.id }

/-- A run begins. With the master switch off, or after the end of everything, it
does nothing. -/
def beginRun (c : Setup σ) (t : Run) (m : Machine σ) : Machine σ :=
  if m.disposed then m.finishRun c t.id
  else
    let (flags, m) := m.readSwitches c
    if !flags.master then m.finishRun c t.id
    else
      match t.request.scope, t.request.target with
      | .file, _ => m.beginFile c t
      | _, some n =>
        m.call c t (.line n) fun m =>
          m.lineFormatted c t (c.formatter.formatLineAt {} n m.world)
      | _, none =>
        m.call c t .current fun m =>
          m.lineFormatted c t (c.formatter.formatCurrent {} m.world)

/-- A run begins or goes on. -/
def advanceRun (c : Setup σ) (t : Run) (m : Machine σ) : Machine σ :=
  match t.paused with
  | none => m.beginRun c t
  | some run =>
    m.fileProceeded c t t.stopped (run.resume c.formatter t.stopped m.world)

/-! ## Jobs -/

/-- One who waits gets to know that the scheduler is at rest. -/
def tell (c : Setup σ) (w : Waiter) (m : Machine σ) : Machine σ :=
  match w with
  | .observer n => { m with told := n :: m.told }
  | .leaver =>
    let m := m.dispose c
    { m with world := c.leave m.world }

/-- Carry out a job. A timer that was cancelled meanwhile does nothing. -/
def perform (c : Setup σ) (m : Machine σ) : Job → Machine σ
  | .run id =>
    match m.runs.find? fun t => t.id = id with
    | some t => m.advanceRun c t
    | none => m
  | .expire id =>
    match m.timers.find? fun t => t.id = id with
    | some t =>
      (dispatch c true t.request
        { m with armed := none, timers := m.timers.filter fun u => u.id != id }).state
    | none => m
  | .ask w => if m.idle then m.tell c w else { m with waiting := m.waiting ++ [w] }
  | .wake w => m.tell c w

/-- Insert a timer in the order of time, behind those of the same time. -/
def insertTimer (t : Timer) : List Timer → List Timer
  | [] => [t]
  | u :: us => if t.due < u.due then t :: u :: us else u :: insertTimer t us

/-- The timers that are due, in the order of time. -/
def dueTimers (m : Machine σ) : List Timer :=
  (m.timers.filter fun t => t.due ≤ m.now).foldl (fun ts t => insertTimer t ts) []

/-- What the next step carries out. -/
def batch (m : Machine σ) : List Job := m.ready ++ m.dueTimers.map fun t => .expire t.id

/-- A step. -/
def step (c : Setup σ) (m : Machine σ) : Machine σ :=
  m.batch.foldl (perform c) { m with ready := [] }

def steps (c : Setup σ) : Nat → Machine σ → Machine σ
  | 0, m => m
  | n + 1, m => steps c n (m.step c)

/-! ## Settling -/

/-- The greatest number of lines that a run has or can get. -/
def lineBound (c : Setup σ) (m : Machine σ) : Nat :=
  let lines := ((c.allLines?.bind fun f => f m.world).getD []).length
  m.runs.foldl (fun n t => max n ((t.paused.map (·.progress.total)).getD 0)) lines

/-- A bound on the steps that a run still takes. -/
def runWork (bound : Nat) (t : Run) : Nat :=
  match t.paused with
  | none => 2 * bound + 2
  | some run => run.pauses + 1

/-- A bound on the steps that someone who asks or is told takes. -/
def jobWork : Job → Nat
  | .ask _ => 2
  | .wake _ => 1
  | .run _ | .expire _ => 0

/-- What all of some things come to. -/
def total (f : α → Nat) (as : List α) : Nat := as.foldr (fun a n => f a + n) 0

/-- A bound on the steps until nothing is left to do, timers included. -/
def work (c : Setup σ) (m : Machine σ) : Nat :=
  let bound := m.lineBound c
  total jobWork m.ready + m.waiting.length + total (runWork bound) m.runs
    + (if m.queued.isSome then 2 * bound + 2 else 0) + m.timers.length * (2 * bound + 3)

/-- Take steps until one finds nothing to do, at most the given number. -/
def settleWithin (c : Setup σ) : Nat → Machine σ → Machine σ
  | 0, m => m
  | n + 1, m => if m.batch.isEmpty then m else settleWithin c n (m.step c)

/-- Take steps until one finds nothing to do. -/
def settle (c : Setup σ) (m : Machine σ) : Machine σ := m.settleWithin c (m.work c + 1)

/-- Let time pass. -/
def advance (c : Setup σ) (ms : Nat) (m : Machine σ) : Machine σ :=
  settle c { m with now := m.now + ms }

/-- Go to the time of the next timer, as often as there is one, at most the given
number of times. -/
def drainWithin (c : Setup σ) : Nat → Machine σ → Machine σ
  | 0, m => m
  | n + 1, m =>
    match m.timers.foldl (fun ts t => insertTimer t ts) [] with
    | [] => m
    | t :: _ => drainWithin c n (settle c { m with now := max m.now t.due })

/-- Let everything come to its end. -/
def drain (c : Setup σ) (m : Machine σ) : Machine σ :=
  let m := m.settle c
  m.drainWithin c m.timers.length

/-- Someone begins to wait for the scheduler to come to rest. -/
def wait (w : Waiter) (m : Machine σ) : Machine σ := { m with ready := m.ready ++ [.ask w] }

end Machine

end TaskLine
