import TaskLine.Proofs.Schedule.Readiness

/-!
# A run for a line, from its timer to its end

A request for a line waits for its time, and nothing else is going on but that some ask to be told
when the scheduler is at rest (`Waited`). Then the loop needs two steps: in the first one the timer
goes off and the run is enrolled, in the second one the formatter is called and the run is over.
What is left are those who asked, and the last of them may end everything. So when the loop has
settled there was exactly one call, and the world is as the formatter left it (`Waited.settle`).
-/

namespace TaskLine

variable {σ : Type} {c : Setup σ}

/-- A job by which someone asks to be told, or by which an observer is. -/
def Job.observes : Job → Bool
  | .ask _ | .wake (.observer _) => true
  | .run _ | .expire _ | .wake .leaver => false

/-- The call of the formatter that a run for a line makes. -/
def Request.lineCall (r : Request) : Call :=
  match r.target with
  | some n => .line n
  | none => .current

/-- What the formatter makes of the world in a run for a line. -/
def Setup.formatsLine (c : Setup σ) (r : Request) (s : σ) : Attempt RunFault σ Bool :=
  match r.target with
  | some n => c.formatter.formatLineAt {} n s
  | none => c.formatter.formatCurrent {} s

/-! ## Between two steps -/

namespace Moment

variable {k : Moment σ} {a : Act σ} {m m₁ : Machine σ} {rest : List Job}

/-- The accounts of a moment are in order, and no timer goes off but in a step that begins with
it. -/
structure Regular (k : Moment σ) : Prop extends k.Coherent where
  ready : ∀ id, .expire id ∉ k.machine.ready

theorem regular_start (s : σ) : (start s).Regular := ⟨coherent_start s, by simp [start]⟩

theorem Regular.alike (h : Regular ⟨m, rest⟩) (ha : m.Alike m₁) : Regular ⟨m₁, rest⟩ := by
  refine ⟨h.toCoherent.alike ha, fun id hid => h.ready id ?_⟩
  rwa [ha.still.ready] at hid

theorem Regular.after (h : k.Regular) (ha : a.Available c) : (k.after c a).Regular := by
  refine ⟨h.toCoherent.after ha, fun id hid => ?_⟩
  obtain ⟨-, hready⟩ | ⟨w, hask⟩ | hrun | ⟨⟨w, hwake⟩, -⟩ := ready_after hid
  · exact h.ready id hready
  · cases hask
  · cases hrun
  · cases hwake

theorem Regular.step (h : Regular ⟨m, []⟩) : Regular ⟨m.step c, []⟩ := by
  rw [← run_step]
  refine run_induction (fun k a ha hk => hk.after ?_) h
  obtain rfl | ha := List.mem_cons.mp ha
  · trivial
  · rw [List.eq_of_mem_replicate ha]
    trivial

end Moment

namespace Machine

variable {m : Machine σ} {t : Timer} {r : Request} {n : Notice} {id : Nat}
  {P : σ → Prop} {calls : List Call}

/-! ## The request comes in -/

/-- Nothing is being run, and what is ready is that some ask or that observers are told. -/
structure Free (m : Machine σ) : Prop where
  narrow : m.Narrow
  running : m.running = none
  queued : m.queued = none
  runs : m.runs = []
  disposed : m.disposed = false
  ready : ∀ j ∈ m.ready, j.observes = true

/-- An idle scheduler is free, unless someone is about to leave. -/
theorem free_of_idle (h : Moment.Regular ⟨m, []⟩) (hd : m.disposed = false)
    (hidle : m.activity = .idle) (hleaves : .wake .leaver ∉ m.ready) : m.Free := by
  have hrunning : m.running = none := by
    rw [activity] at hidle
    split at hidle
    · cases hidle
    next hnone => simpa using hnone
  obtain ⟨hruns, hqueued⟩ := h.runs_of_running hrunning
  have hjobs : m.ready.filterMap Job.run? = m.runs.map (·.id) := h.jobs
  rw [show m.runs = [] from hruns, List.map_nil, List.filterMap_eq_nil_iff] at hjobs
  refine ⟨⟨h.armed, h.toCoherent.queued⟩, hrunning, hqueued, hruns, hd, fun j hj => ?_⟩
  cases j with
  | run id => exact absurd (hjobs _ hj) (Option.some_ne_none id)
  | expire id => exact absurd hj (h.ready id)
  | ask w => rfl
  | wake w =>
      cases w with
      | observer n => rfl
      | leaver => exact absurd hj hleaves

/-- A request waits for the time of its timer. -/
structure Waited (t : Timer) (m : Machine σ) : Prop extends m.Free where
  timers : m.timers = [t]
  idle : m.idle = false

/-- The request waits whatever time it is and whatever becomes of the world. -/
theorem Waited.meanwhile (h : m.Waited t) (now : Nat) (world : σ) :
    Waited t { m with now, world } :=
  ⟨⟨⟨h.narrow.armed, h.narrow.queued⟩, h.running, h.queued, h.runs, h.disposed, h.ready⟩,
    h.timers, h.idle⟩

/-- A notice that is let through arms a timer, in the place of one that was armed. -/
theorem Free.notice (h : m.Free) (hallows : (c.flags m.world).allows (requestOf n).reason = true) :
    let m' := m.notice c true n
    m'.Waited ⟨m.nextId, m.now + c.delay, requestOf n⟩ ∧ Quiet m m' ∧ m'.now = m.now := by
  intro m'
  obtain ⟨warnings, hread⟩ := readSwitches_eq c m.disarm
  have hworld : m.disarm.world = m.world := by rw [h.narrow.disarm_eq]
  have heq : m' = { m with
      timers := [⟨m.nextId, m.now + c.delay, requestOf n⟩]
      armed := some m.nextId
      nextId := m.nextId + 1
      idle := false
      warnings } := by
    rw [show m' = m.notice c true n from rfl, Machine.notice, trigger,
      if_neg (by simp [h.disposed])]
    simp only [hread, hworld, hallows, Bool.not_true, Bool.false_eq_true, if_false, Bool.true_or,
      if_true]
    rw [refresh_of_busy rfl, h.narrow.disarm_eq]
    rfl
  rw [heq]
  exact ⟨⟨⟨⟨rfl, h.narrow.queued⟩, h.running, h.queued, h.runs, h.disposed, h.ready⟩, rfl, rfl⟩,
    ⟨rfl, rfl⟩, rfl⟩

/-! ## The timer goes off -/

/-- Those who ask are put off while the scheduler is not at rest. -/
theorem foldl_observes {js : List Job} (hidle : m.idle = false)
    (hjs : ∀ j ∈ js, j.observes = true) :
    ∃ waiting told, js.foldl (perform c) m = { m with waiting, told } := by
  induction js generalizing m with
  | nil => exact ⟨_, _, rfl⟩
  | cons j js ih =>
      obtain ⟨hj, hrest⟩ := List.forall_mem_cons.mp hjs
      rw [List.foldl_cons]
      cases j with
      | run id | expire id => cases hj
      | ask w =>
          rw [perform, if_neg (by simp [hidle])]
          exact ih hidle hrest
      | wake w =>
          cases w with
          | leaver => cases hj
          | observer n => exact ih hidle hrest

/-- A run is about to begin, and nothing else is going on. -/
structure Enrolled (id : Nat) (r : Request) (m : Machine σ) : Prop where
  runs : m.runs = [{ id, request := r }]
  ready : m.ready = [.run id]
  timers : m.timers = []
  armed : m.armed = none
  queued : m.queued = none
  disposed : m.disposed = false

theorem perform_expire (htimers : m.timers = [t]) (hrunning : m.running = none)
    (hd : m.disposed = false) :
    m.perform c (.expire t.id) =
      ({ m with timers := [], armed := none, running := some t.request, idle := false }).enrol
        t.request := by
  have hfind : m.timers.find? (fun u => u.id = t.id) = some t := by simp [htimers]
  have hrest : m.timers.filter (fun u => u.id != t.id) = [] := by simp [htimers]
  rw [perform, hfind]
  dsimp only
  rw [hrest,
    dispatch_of_idle (m := { m with timers := [], armed := none }) (Bool.true_or _) hd hrunning,
    refresh_of_busy (m := { m with timers := [], armed := none, running := some t.request })
      (by simp [atRest])]

theorem Waited.step (h : m.Waited t) (hdue : t.due ≤ m.now) :
    Enrolled m.nextId t.request (m.step c) ∧ Quiet m (m.step c) := by
  have hexpires : m.dueTimers = [t] := by simp [dueTimers, h.timers, hdue, insertTimer]
  obtain ⟨waiting, told, hobserved⟩ :=
    foldl_observes (c := c) (m := { m with ready := [] }) h.idle h.ready
  rw [Machine.step, batch, hexpires, List.foldl_append, hobserved, List.map_singleton,
    List.foldl_cons, List.foldl_nil,
    perform_expire (m := { m with ready := [], waiting, told }) h.timers h.running h.disposed]
  refine ⟨⟨?_, rfl, rfl, rfl, h.queued, h.disposed⟩, rfl, rfl⟩
  rw [enrol, h.runs]
  rfl

/-! ## The run -/

/-- Whatever comes of a line, the run is over. -/
theorem lineFormatted_eq (u : Run) (x : Attempt RunFault σ Bool) :
    ∃ warnings, m.lineFormatted c u x = finishRun c u.id { m with world := x.state, warnings } := by
  obtain ⟨_ | _, world⟩ := x
  · exact ⟨_, rfl⟩
  · exact ⟨m.warnings, rfl⟩

/-- A run for a line calls the formatter once and is over. -/
theorem beginRun_eq {u : Run} (hscope : u.request.scope ≠ .file) (hd : m.disposed = false)
    (hmaster : (c.flags m.world).master = true) (hfailing : ∀ n, c.failing n = false) :
    ∃ warnings, m.beginRun c u = finishRun c u.id
      { m with
        world := (c.formatsLine u.request m.world).state
        calls := u.request.lineCall :: m.calls
        warnings } := by
  obtain ⟨warnings, hread⟩ := readSwitches_eq c m
  have hcalled : m.beginRun c u = lineFormatted c u (c.formatsLine u.request m.world)
      { m with warnings, calls := u.request.lineCall :: m.calls } := by
    rw [beginRun, if_neg (by simp [hd])]
    simp only [hread, hmaster, Bool.not_true, Bool.false_eq_true, if_false]
    rw [Setup.formatsLine, Request.lineCall]
    split
    next hfile => exact absurd hfile hscope
    next n htarget _ => rw [call, if_neg (by simp [hfailing]), htarget]
    next htarget _ => rw [call, if_neg (by simp [hfailing]), htarget]
  rw [hcalled]
  exact lineFormatted_eq u _

/-- The calls were made, the world has a property, and nothing is left to do but that some ask or
are told. -/
structure Settling (P : σ → Prop) (calls : List Call) (m : Machine σ) : Prop where
  runs : m.runs = []
  timers : m.timers = []
  ready : ∀ j ∈ m.ready, j.waiter?.isSome
  calls : m.calls = calls
  world : P m.world

theorem Settling.refresh (h : m.Settling P calls) : m.refresh.Settling P calls := by
  rw [Machine.refresh]
  split
  · split
    · exact h
    · refine ⟨h.runs, h.timers, List.forall_mem_append.mpr ⟨h.ready, ?_⟩, h.calls, h.world⟩
      rintro _ hj
      obtain ⟨w, -, rfl⟩ := List.mem_map.mp hj
      rfl
  · exact ⟨h.runs, h.timers, h.ready, h.calls, h.world⟩

theorem Enrolled.step (h : m.Enrolled id r) (hscope : r.scope ≠ .file)
    (hmaster : (c.flags m.world).master = true) (hfailing : ∀ n, c.failing n = false)
    (hworld : P (c.formatsLine r m.world).state) :
    (m.step c).Settling P (r.lineCall :: m.calls) := by
  have hbatch : m.batch = [.run id] := by simp [batch, h.ready, dueTimers, h.timers]
  have hfind : m.runs.find? (fun u => u.id = id) = some { id, request := r } := by simp [h.runs]
  obtain ⟨warnings, hbegun⟩ :=
    beginRun_eq (u := { id, request := r }) (m := { m with ready := [] }) hscope h.disposed hmaster
      hfailing
  rw [Machine.step, hbatch, List.foldl_cons, List.foldl_nil, perform]
  dsimp only
  rw [hfind]
  dsimp only
  rw [advanceRun, hbegun, finishRun_eq]
  dsimp only
  rw [h.queued]
  refine Settling.refresh ⟨?_, h.timers, List.forall_mem_nil _, rfl, hworld⟩
  simp [cease, h.runs]

/-! ## News -/

section

variable (hunsubscribe : ∀ e s, P s → P (c.unsubscribe e s).2) (hleave : ∀ s, P s → P (c.leave s))

include hunsubscribe

theorem Settling.dispose (h : m.Settling P calls) : (m.dispose c).Settling P calls := by
  have hworld : P (m.dispose c).world := world_dispose hunsubscribe h.world
  obtain ⟨world, warnings, heq⟩ := dispose_eq c m
  have hdisarmed : Settling P calls (disarm { m with disposed := true }) := by
    rw [disarm]
    split
    · exact ⟨h.runs, h.timers, h.ready, h.calls, h.world⟩
    · exact ⟨h.runs, by simp [h.timers], h.ready, h.calls, h.world⟩
  have hstopped : Settling P calls (stopRun (disarm { m with disposed := true })) := by
    rw [stopRun]
    split
    · exact hdisarmed
    · exact ⟨by simp [hdisarmed.runs], hdisarmed.timers, hdisarmed.ready, hdisarmed.calls,
        hdisarmed.world⟩
  rw [heq, (quiet_refresh _).world] at hworld
  rw [heq]
  exact Settling.refresh ⟨hstopped.runs, hstopped.timers, hstopped.ready, hstopped.calls, hworld⟩

include hleave

/-- Whoever is told may be the last one, who ends everything. -/
theorem Settling.tell (h : m.Settling P calls) (w : Waiter) : (m.tell c w).Settling P calls := by
  cases w with
  | observer n => exact ⟨h.runs, h.timers, h.ready, h.calls, h.world⟩
  | leaver =>
      have hended : (m.dispose c).Settling P calls := h.dispose hunsubscribe
      exact ⟨hended.runs, hended.timers, hended.ready, hended.calls, hleave _ hended.world⟩

theorem Settling.perform (h : m.Settling P calls) {j : Job} (hj : j.waiter?.isSome) :
    (m.perform c j).Settling P calls := by
  cases j with
  | run id | expire id => cases hj
  | ask w =>
      rw [Machine.perform]
      split
      · exact h.tell hunsubscribe hleave w
      · exact ⟨h.runs, h.timers, h.ready, h.calls, h.world⟩
  | wake w => exact h.tell hunsubscribe hleave w

theorem Settling.step (h : m.Settling P calls) : (m.step c).Settling P calls := by
  have hperformed (js : List Job) (m : Machine σ) (hm : m.Settling P calls)
      (hjs : ∀ j ∈ js, j.waiter?.isSome) : (js.foldl (Machine.perform c) m).Settling P calls := by
    induction js generalizing m with
    | nil => exact hm
    | cons j js ih =>
        obtain ⟨hj, hrest⟩ := List.forall_mem_cons.mp hjs
        exact ih _ (hm.perform hunsubscribe hleave hj) hrest
  have hbatch : m.batch = m.ready := by simp [batch, dueTimers, h.timers]
  rw [Machine.step, hbatch]
  exact hperformed _ _ ⟨h.runs, h.timers, List.forall_mem_nil _, h.calls, h.world⟩ h.ready

theorem Settling.settleWithin (h : m.Settling P calls) (n : Nat) :
    (m.settleWithin c n).Settling P calls := by
  induction n generalizing m with
  | zero => exact h
  | succ n ih =>
      rw [Machine.settleWithin]
      split
      · exact h
      · exact ih (h.step hunsubscribe hleave)

/-- A request for a line that waits for its time makes exactly one call, whatever else is asked for
meanwhile. When the loop has settled the world is as the formatter left it. -/
theorem Waited.settle (h : m.Waited t) (hdue : t.due ≤ m.now) (hscope : t.request.scope ≠ .file)
    (hmaster : (c.flags m.world).master = true) (hfailing : ∀ n, c.failing n = false)
    (hworld : P (c.formatsLine t.request m.world).state) :
    (m.settle c).calls = t.request.lineCall :: m.calls ∧ P (m.settle c).world := by
  obtain ⟨henrolled, hquiet⟩ := h.step (c := c) hdue
  have hsettling : ((m.step c).step c).Settling P (t.request.lineCall :: m.calls) := by
    rw [← hquiet.calls]
    rw [← hquiet.world] at hmaster hworld
    exact henrolled.step hscope hmaster hfailing hworld
  have htimer : ¬m.batch.isEmpty = true := by
    simp [batch, dueTimers, h.timers, hdue, insertTimer]
  have hrun : ¬(m.step c).batch.isEmpty = true := by simp [batch, henrolled.ready]
  -- the timer alone is reckoned with three steps
  obtain ⟨n, hn⟩ : ∃ n, m.work c = n + 1 := by
    refine Nat.exists_eq_add_one.mpr ?_
    simp only [work, h.timers, List.length_singleton]
    omega
  have hsettled : (m.settle c).Settling P (t.request.lineCall :: m.calls) := by
    rw [Machine.settle, hn, Machine.settleWithin, if_neg htimer, Machine.settleWithin, if_neg hrun]
    exact hsettling.settleWithin hunsubscribe hleave n
  exact ⟨hsettled.calls, hsettled.world⟩

end

end Machine

end TaskLine
