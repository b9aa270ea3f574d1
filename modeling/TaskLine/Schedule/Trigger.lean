import TaskLine.Schedule.Machine

/-!
# Requests coming in

A request is either delayed or dispatched at once. Both need the switches to let
it through, and both need a loop to schedule something on: the scheduler's own
one, or the one in which the call is made.
-/

namespace TaskLine

/-- Why a request was not taken. -/
inductive TriggerFault where
  | request (fault : RequestFault)
  /-- There is no loop to schedule on. -/
  | noLoop
deriving DecidableEq, Repr

def TriggerFault.message : TriggerFault → Text
  | .request f => f.message
  | .noLoop => "no running event loop".toList

namespace Machine

variable {σ : Type}

/-- Start to run a request, or queue it behind the one that is running. A request
for the file tells a run for the file to stop. -/
def dispatch (c : Setup σ) (live : Bool) (r : Request) (m : Machine σ) :
    Attempt TriggerFault (Machine σ) Unit :=
  if m.disposed then ⟨.ok (), m.refresh⟩
  else
    match m.running with
    | some current =>
      let m := if r.scope = .file ∧ current.scope = .file then m.stopRun else m
      ⟨.ok (), refresh { m with queued := some r }⟩
    | none =>
      let m := refresh { m with running := some r }
      if live || c.ownLoop then
        ⟨.ok (), { m with
          runs := m.runs ++ [{ id := m.nextId, request := r }]
          ready := m.ready ++ [.run m.nextId]
          nextId := m.nextId + 1 }⟩
      else ⟨.error .noLoop, m⟩

/-- Request a run after the delay. An earlier request that still waits for its
time is dropped. The result says whether the request was taken. -/
def trigger (c : Setup σ) (live : Bool) (asked : Except RequestFault Request) (m : Machine σ) :
    Attempt TriggerFault (Machine σ) Bool :=
  if m.disposed then ⟨.ok false, m⟩
  else
    match asked with
    | .error e => ⟨.error (.request e), m⟩
    | .ok r =>
      let (flags, m) := m.disarm.readSwitches c
      if !flags.allows r.reason then ⟨.ok false, m.refresh⟩
      else if live || c.ownLoop then
        ⟨.ok true, refresh { m with
          timers := m.timers ++ [⟨m.nextId, m.now + c.delay, r⟩]
          armed := some m.nextId
          nextId := m.nextId + 1 }⟩
      else ⟨.error .noLoop, m⟩

/-- Request a run without delay. -/
def triggerNow (c : Setup σ) (live : Bool) (asked : Except RequestFault Request)
    (m : Machine σ) : Attempt TriggerFault (Machine σ) Bool :=
  if m.disposed then ⟨.ok false, m⟩
  else
    match asked with
    | .error e => ⟨.error (.request e), m⟩
    | .ok r =>
      let (flags, m) := m.readSwitches c
      if !flags.allows r.reason then ⟨.ok false, m⟩
      else
        match m.disarm.dispatch c live r with
        | ⟨.ok (), m⟩ => ⟨.ok true, m⟩
        | ⟨.error e, m⟩ => ⟨.error e, m⟩

/-- The request that an event of the host makes. When the cursor leaves a line
that line is to be formatted. -/
def requestOf : Notice → Request
  | .lineCommitted => { reason := .commit, scope := .line }
  | .cursorLineChanged previous _ =>
    { reason := .cursorMove, scope := .line, target := some previous }
  | .leafChanged => { reason := .leafOrFile, scope := .file }

/-- An event of the host reaches the scheduler. -/
def notice (c : Setup σ) (live : Bool) (n : Notice) (m : Machine σ) : Machine σ :=
  match m.trigger c live (.ok (requestOf n)) with
  | ⟨.ok _, m⟩ => m
  | ⟨.error e, m⟩ => m.warn (.eventFailed n.event e.message)

/-! ## Attaching and disposing -/

/-- The events that the scheduler subscribes to, in this order. -/
def events : List HostEvent := [.cursorLineChanged, .lineCommitted, .leafChanged]

/-- Subscribe to an event that the host offers. -/
def subscribe (event : HostEvent) (hook : σ → Subscription × σ) (m : Machine σ) : Machine σ :=
  let (result, world) := hook m.world
  let m := { m with world }
  match result with
  | .held => { m with held := m.held ++ [event] }
  | .loose => m
  | .failed message => m.warn (.subscribeFailed event message)

/-- Subscribe to the events that the host offers. A host that offers none gets a
single run for its current line. Only the first call does anything. -/
def attach (c : Setup σ) (live : Bool) (m : Machine σ) : Machine σ :=
  if m.attached || m.disposed then m
  else
    let offered := events.filterMap fun e => (c.subscribe? e).map fun hook => (e, hook)
    let m := offered.foldl (fun m o => m.subscribe o.1 o.2) { m with attached := true }
    if offered.isEmpty then
      match m.trigger c live (.ok { reason := .manual, scope := .line }) with
      | ⟨.ok _, m⟩ => m
      | ⟨.error e, m⟩ => m.warn (.singleRunFailed e.message)
    else m

/-- Unsubscribe from an event. -/
def unsubscribe (c : Setup σ) (event : HostEvent) (m : Machine σ) : Machine σ :=
  let (failed, world) := c.unsubscribe event m.world
  let m := { m with world }
  match failed with
  | some message => m.warn (.unsubscribeFailed message)
  | none => m

/-- Stop everything for good. -/
def dispose (c : Setup σ) (m : Machine σ) : Machine σ :=
  let m := stopRun (disarm { m with disposed := true })
  let m := m.held.foldl (fun m e => m.unsubscribe c e) { m with held := [] }
  refresh { m with queued := none }

end Machine

end TaskLine
