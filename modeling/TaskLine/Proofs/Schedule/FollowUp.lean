import TaskLine.Proofs.Schedule.Turns

/-!
# What follows a run

There is one place in the queue. A request that is dispatched while a run is in flight takes it,
whatever stood there, and a request for the file tells a run for the file to stop. When the run
ends what is queued follows. So of the requests that were dispatched in the meantime the last
one is run, and no other (`superseded_followed`): a run for the file that was stopped for the
sake of a newer request is made up for by a run for the file unless a request for a line came
last.
-/

namespace TaskLine

variable {σ : Type} {c : Setup σ}

namespace Machine

variable {m m' : Machine σ} {id : Nat} {call : Call} {t : Run}

theorem GoneOn.calls (h : GoneOn c id m m') : m.calls <:+ m'.calls := by
  obtain ⟨_, ⟨_, _, _, _, _, _, _, _, rfl, hcalls, -⟩, rfl | ⟨run, rfl⟩⟩ := h
  · rwa [quiet_finishRun.calls]
  · exact hcalls

/-- A run that begins while the master switch is on calls the formatter. -/
theorem called_of_beginRun (hd : m.disposed = false) (hmaster : (c.flags m.world).master = true)
    (hentry : c.entry? t.request m.world = some call) :
    call :: m.calls <:+ (m.beginRun c t).calls := by
  obtain ⟨_, -, -, hend⟩ | ⟨entry, hentry', hgone⟩ := beginRun_cases (c := c) (m := m) (t := t)
  · simp [hd, hmaster, hentry] at hend
  · obtain rfl : entry = call := Option.some.inj (hentry'.symm.trans hentry)
    obtain hends | ⟨-, hparks⟩ := hgone
    · exact hends.goneOn.calls
    · exact ((alike_signalled t.id entry m).goneOn (c := c) hparks).calls

end Machine

namespace Moment

variable {k : Moment σ} {a : Act σ} {acts : List (Act σ)} {id : Nat} {q r : Request} {t : Run}

/-- Whether a run is not over. -/
def inFlight (id : Nat) (k : Moment σ) : Bool := k.machine.runs.any fun t => t.id = id

/-- The last of the requests that are dispatched while a run is in flight, or else `r`. -/
def lastDispatched (c : Setup σ) (id : Nat) : List (Act σ) → Request → Moment σ → Request
  | [], r, _ => r
  | a :: acts, r, k =>
    if k.inFlight id then lastDispatched c id acts ((k.dispatched? c a).getD r) (k.after c a)
    else r

/-- An act stops a run for the file, for it dispatches a newer request for the file. -/
structure Supersedes (c : Setup σ) (k : Moment σ) (a : Act σ) (t : Run) (r : Request) : Prop where
  inFlight : t ∈ k.machine.runs
  file : t.request.scope = .file
  dispatched : k.dispatched? c a = some r
  newer : r.scope = .file
  going : t.stopped = false
  stopped : ∃ u ∈ (k.after c a).machine.runs, u.id = t.id ∧ u.stopped = true

/-- Nothing is left to do, and no timer is left. -/
structure Drained (k : Moment σ) : Prop where
  rest : k.rest = []
  ready : k.machine.ready = []
  timers : k.machine.timers = []

/-- There is a run for a request that has not begun. -/
def Awaits (k : Moment σ) (q : Request) : Prop :=
  ∃ t ∈ k.machine.runs, t.paused = none ∧ t.request = q

/-! ## The end of everything -/

theorem Coherent.runs_of_drained (h : k.Coherent) (hdrained : k.Drained) :
    k.machine.runs = [] := by
  have hjobs := h.jobs
  rw [hdrained.rest, hdrained.ready] at hjobs
  exact List.map_eq_nil_iff.mp hjobs.symm

theorem disposed_finishRun {m : Machine σ} (h : m.disposed = true) :
    (m.finishRun c id).disposed = true := by
  rw [Machine.finishRun_eq]
  split
  · exact (Machine.steady_refresh _).disposed.trans h
  · rw [if_pos h]
    exact (Machine.steady_refresh _).disposed.trans h

theorem disposed_tell {m : Machine σ} {w : Waiter} (h : m.disposed = true) :
    (m.tell c w).disposed = true := by
  cases w with
  | observer n => exact h
  | leaver => exact Machine.disposed_dispose m

theorem disposed_perform {m : Machine σ} {j : Job} (h : m.disposed = true) :
    (m.perform c j).disposed = true := by
  cases j with
  | run id =>
      rw [Machine.perform]
      split
      · obtain ⟨m₁, halike, heq | ⟨run, heq⟩⟩ := Machine.goneOn_advanceRun (c := c) (m := m)
        <;> rw [heq]
        · exact disposed_finishRun (halike.steady.disposed.trans h)
        · exact halike.steady.disposed.trans h
      · exact h
  | expire id =>
      rw [Machine.perform]
      split
      · rw [Machine.dispatch_of_disposed (by exact h)]
        exact (Machine.steady_refresh _).disposed.trans h
      · exact h
  | ask w =>
      rw [Machine.perform]
      split
      · exact disposed_tell h
      · exact h
  | wake w => exact disposed_tell h

/-- What is disposed stays so. -/
theorem disposed_after (h : k.machine.disposed = true) : (k.after c a).machine.disposed = true := by
  have htrigger := fun live asked => Machine.trigger_of_disposed c live asked h
  cases a with
  | trigger live asked => rwa [after, htrigger]
  | triggerNow live asked => rwa [after, Machine.triggerNow_of_disposed c live asked h]
  | attach live => rwa [after, Machine.attach, if_pos (by simp [h])]
  | notice live n => rwa [after, Machine.notice, htrigger]
  | dispose => exact Machine.disposed_dispose _
  | wait w => exact h
  | change f => exact h
  | pass ms => exact h
  | gather =>
      rw [after]
      split <;> exact h
  | job =>
      rw [after]
      split
      · exact h
      · exact disposed_perform h

theorem not_disposed_of_run (acts : List (Act σ)) (h : (k.run c acts).machine.disposed = false) :
    k.machine.disposed = false := by
  refine Bool.eq_false_iff.mpr fun hd => ?_
  have hstays : (k.run c acts).machine.disposed = true :=
    run_induction (P := fun k => k.machine.disposed = true) (fun _ _ _ hk => disposed_after hk) hd
  rw [h] at hstays
  cases hstays

/-! ## One act -/

theorem inFlight_iff : k.inFlight id = true ↔ id ∈ k.machine.runs.map (·.id) := by
  simp [inFlight]

theorem Coherent.not_inFlight_nextId (h : k.Coherent) : k.inFlight k.machine.nextId = false := by
  refine Bool.eq_false_iff.mpr fun hflight => ?_
  obtain ⟨t, ht, hid⟩ := List.mem_map.mp (inFlight_iff.mp hflight)
  exact absurd (h.fresh t ht) (by simp [hid])

/-- An act leaves the runs that there are, and what it dispatches is queued; or it leaves no run
but a new one, for the request whose turn it is. -/
theorem Coherent.queues_or_enrols (h : k.Coherent) (ha : a.Available c)
    (hd : (k.after c a).machine.disposed = false) :
    ((k.after c a).machine.runs.map (·.id) = k.machine.runs.map (·.id) ∧
        (k.after c a).machine.queued = (k.dispatched? c a).or k.machine.queued) ∨
      ((k.machine.runs = [] ∧ k.machine.queued = none ∨ k.dispatched? c a = none) ∧
        (k.after c a).machine.queued = none ∧
        (k.after c a).machine.runs = (k.machine.queued.or (k.dispatched? c a)).toList.map
          fun r => { id := k.machine.nextId, request := r }) := by
  have hturn := h.turn ha (not_disposed_of_run [a] hd)
  generalize k.dispatched? c a = d at hturn ⊢
  generalize k.goesOn? a = g at hturn
  generalize k.after c a = k' at hturn hd ⊢
  cases hturn with
  | stay steady => exact .inl ⟨steady.ids, steady.queued⟩
  | enrol r rest running queued runs =>
      have hrest := h.runs_of_running rest
      refine .inr ⟨.inl hrest, queued, ?_⟩
      rw [runs, hrest.2]
      rfl
  | queue r busy steady => exact .inl ⟨steady.ids, steady.queued⟩
  | pause t run only steady =>
      refine .inl ⟨?_, steady.queued⟩
      rw [steady.ids, only]
      rfl
  | finish t only running queued runs =>
      refine .inr ⟨.inr rfl, queued, ?_⟩
      rw [runs, Option.or_none]
  | dispose disposed =>
      rw [hd] at disposed
      cases disposed

/-- As long as a run is in flight the request that was dispatched last is queued. When it is over
there is a run for what was queued, and no other. -/
theorem Coherent.follow (h : k.Coherent) (ha : a.Available c)
    (hd : (k.after c a).machine.disposed = false) (hflight : k.inFlight id = true) :
    ((k.after c a).inFlight id = true ∧
        (k.after c a).machine.runs.map (·.id) = k.machine.runs.map (·.id) ∧
        (k.after c a).machine.queued = (k.dispatched? c a).or k.machine.queued) ∨
      ((k.after c a).inFlight id = false ∧ k.dispatched? c a = none ∧
        (k.after c a).machine.queued = none ∧
        (k.after c a).machine.runs =
          k.machine.queued.toList.map fun r => { id := k.machine.nextId, request := r }) := by
  obtain ⟨hids, hqueued⟩ | ⟨hrest, hqueued, hruns⟩ := h.queues_or_enrols ha hd
  · refine .inl ⟨?_, hids, hqueued⟩
    rwa [inFlight_iff, hids, ← inFlight_iff]
  · have hnone : k.dispatched? c a = none := by
      refine hrest.resolve_left fun hrest => ?_
      rw [inFlight_iff, hrest.1] at hflight
      cases hflight
    rw [hnone, Option.or_none] at hruns
    refine .inr ⟨Bool.eq_false_iff.mpr fun hlater => ?_, hnone, hqueued, hruns⟩
    rw [inFlight_iff, hruns, List.map_map, List.mem_map] at hlater
    obtain ⟨_, -, rfl⟩ := hlater
    exact Bool.eq_false_iff.mp h.not_inFlight_nextId hflight

/-- The newer request is queued behind the run that is told to stop. -/
theorem Supersedes.queued (hstop : Supersedes c k a t r) (h : k.Coherent) (ha : a.Available c)
    (hd : (k.after c a).machine.disposed = false) :
    (k.after c a).inFlight t.id = true ∧ (k.after c a).machine.queued = some r := by
  have hturn := h.turn ha (not_disposed_of_run [a] hd)
  rw [hstop.dispatched] at hturn
  generalize k.goesOn? a = g at hturn
  cases hturn with
  | enrol _ rest =>
      have hruns := hstop.inFlight
      rw [(h.runs_of_running rest).1] at hruns
      cases hruns
  | queue _ busy steady =>
      rw [inFlight_iff, steady.ids]
      exact ⟨List.mem_map_of_mem hstop.inFlight, steady.queued⟩

/-- A run that has not begun begins, unless it is still to begin. -/
theorem Coherent.await (h : k.Coherent) (ha : a.Available c)
    (hd : (k.after c a).machine.disposed = false) (hq : k.Awaits q) :
    (∃ t, k.goesOn? a = some t ∧ t.paused = none ∧ t.request = q) ∨ (k.after c a).Awaits q := by
  obtain ⟨t, ht, hpaused, rfl⟩ := hq
  have hsteady : ∀ {k' : Moment σ}, k'.machine.runs.map Run.unmarked =
      k.machine.runs.map Run.unmarked → k'.Awaits t.request := by
    intro k' hruns
    obtain ⟨u, hu, hut⟩ := List.mem_map.mp (hruns.symm ▸ List.mem_map_of_mem ht)
    rw [Run.unmarked, Run.unmarked, Run.mk.injEq] at hut
    exact ⟨u, hu, hut.2.2.1.trans hpaused, hut.2.1⟩
  have hturn := h.turn ha (not_disposed_of_run [a] hd)
  generalize k.dispatched? c a = d at hturn
  generalize k.goesOn? a = g at hturn ⊢
  generalize k.after c a = k' at hturn hd ⊢
  cases hturn with
  | stay steady => exact .inr (hsteady steady.runs)
  | enrol r rest =>
      rw [(h.runs_of_running rest).1] at ht
      cases ht
  | queue r busy steady => exact .inr (hsteady steady.runs)
  | pause u run only steady =>
      obtain rfl : t = u := by simpa [only] using ht
      exact .inl ⟨t, rfl, hpaused, rfl⟩
  | finish u only =>
      obtain rfl : t = u := by simpa [only] using ht
      exact .inl ⟨t, rfl, hpaused, rfl⟩
  | dispose disposed =>
      rw [hd] at disposed
      cases disposed

/-! ## Histories -/

/-- In the course of a history a run for a request begins. -/
def Begins (c : Setup σ) (acts : List (Act σ)) (k : Moment σ) (q : Request) : Prop :=
  ∃ acts₁ acts₂ t, acts = acts₁ ++ .job :: acts₂ ∧ (k.run c acts₁).goesOn? .job = some t ∧
    t.paused = none ∧ t.request = q

theorem Begins.cons (h : Begins c acts (k.after c a) q) : Begins c (a :: acts) k q := by
  obtain ⟨acts₁, acts₂, t, rfl, hgoes, hpaused, hrequest⟩ := h
  exact ⟨a :: acts₁, acts₂, t, rfl, hgoes, hpaused, hrequest⟩

theorem begins_of_awaits (h : k.Coherent) (hacts : ∀ a ∈ acts, a.Available c)
    (hd : (k.run c acts).machine.disposed = false) (hdrained : (k.run c acts).Drained)
    (hq : k.Awaits q) : Begins c acts k q := by
  induction acts generalizing k with
  | nil =>
      obtain ⟨t, ht, -⟩ := hq
      rw [h.runs_of_drained hdrained] at ht
      cases ht
  | cons a acts ih =>
      have ha := hacts a List.mem_cons_self
      have hacts := fun b hb => hacts b (List.mem_cons_of_mem a hb)
      obtain ⟨t, hgoes, hbegun⟩ | hq := h.await ha (not_disposed_of_run _ hd) hq
      · cases a with
        | job => exact ⟨[], acts, t, rfl, hgoes, hbegun⟩
        | _ => cases hgoes
      · exact (ih (h.after ha) hacts hd hdrained hq).cons

theorem lastDispatched_of_not_inFlight (h : k.inFlight id = false) :
    lastDispatched c id acts r k = r := by
  cases acts with
  | nil => rfl
  | cons a acts => rw [lastDispatched, if_neg (by simp [h])]

/-- What is dispatched last is the first request, unless others come after it while the run is in
flight. -/
theorem lastDispatched_cases (c : Setup σ) (id : Nat) (acts : List (Act σ)) (r : Request)
    (k : Moment σ) :
    lastDispatched c id acts r k = r ∨ ∃ acts₁ a acts₂, acts = acts₁ ++ a :: acts₂ ∧
      (k.run c acts₁).inFlight id = true ∧
      (k.run c acts₁).dispatched? c a = some (lastDispatched c id acts r k) := by
  induction acts generalizing k r with
  | nil => exact .inl rfl
  | cons a acts ih =>
      rw [lastDispatched]
      split
      case isFalse => exact .inl rfl
      case isTrue hflight =>
        obtain hsame | ⟨acts₁, b, acts₂, rfl, hlater⟩ :=
          ih ((k.dispatched? c a).getD r) (k.after c a)
        · rw [hsame]
          cases hd : k.dispatched? c a with
          | none => exact .inl rfl
          | some q => exact .inr ⟨[], a, acts, rfl, hflight, hd⟩
        · exact .inr ⟨a :: acts₁, b, acts₂, rfl, hlater⟩

/-- Behind a run the request that was dispatched last begins to be run. -/
theorem begins_lastDispatched (h : k.Coherent) (hacts : ∀ a ∈ acts, a.Available c)
    (hd : (k.run c acts).machine.disposed = false) (hdrained : (k.run c acts).Drained)
    (hflight : k.inFlight id = true) (hq : k.machine.queued = some q) :
    Begins c acts k (lastDispatched c id acts q k) := by
  induction acts generalizing k q with
  | nil =>
      rw [inFlight_iff, h.runs_of_drained hdrained] at hflight
      cases hflight
  | cons a acts ih =>
      have ha := hacts a List.mem_cons_self
      have hacts := fun b hb => hacts b (List.mem_cons_of_mem a hb)
      rw [lastDispatched, if_pos hflight]
      -- the queue holds the last request until the run is over, and then a run awaits its turn
      obtain ⟨hflight, -, hlast⟩ | ⟨hover, hnone, -, hruns⟩ :=
        h.follow ha (not_disposed_of_run _ hd) hflight
      · rw [hq, Option.or_some] at hlast
        exact (ih (h.after ha) hacts hd hdrained hflight hlast).cons
      · rw [hnone, Option.getD_none, lastDispatched_of_not_inFlight hover]
        have hawaits : (k.after c a).Awaits q :=
          ⟨{ id := k.machine.nextId, request := q }, by simp [hruns, hq], rfl, rfl⟩
        exact (begins_of_awaits (h.after ha) hacts hd hdrained hawaits).cons

/-- In the course of a history a run for a request begins, and calls the formatter for what the
host tells then. -/
def Executes (c : Setup σ) (acts : List (Act σ)) (k : Moment σ) (q : Request) : Prop :=
  ∃ acts₁ acts₂ t, acts = acts₁ ++ .job :: acts₂ ∧ (k.run c acts₁).goesOn? .job = some t ∧
    t.paused = none ∧ t.request = q ∧
    ∀ call, c.entry? q (k.run c acts₁).machine.world = some call →
      call :: (k.run c acts₁).machine.calls <:+ ((k.run c acts₁).after c .job).machine.calls

theorem called_of_goesOn {call : Call} (hgoes : k.goesOn? .job = some t)
    (hpaused : t.paused = none) (hd : k.machine.disposed = false)
    (hmaster : (c.flags k.machine.world).master = true)
    (hentry : c.entry? t.request k.machine.world = some call) :
    call :: k.machine.calls <:+ (k.after c .job).machine.calls := by
  obtain ⟨m, rest⟩ := k
  rw [goesOn?] at hgoes
  split at hgoes
  next id rest hrest =>
    obtain rfl : _ = _ := hrest
    have hadvance : (after c ⟨m, .run id :: rest⟩ .job).machine = m.beginRun c t := by
      simp only [after, Machine.perform, hgoes, Machine.advanceRun, hpaused]
    rw [hadvance]
    exact Machine.called_of_beginRun hd hmaster hentry
  next => cases hgoes

theorem Begins.executes (h : Begins c acts k q) (hd : (k.run c acts).machine.disposed = false)
    (hon : ∀ acts', acts' <+: acts → (c.flags (k.run c acts').machine.world).master = true) :
    Executes c acts k q := by
  obtain ⟨acts₁, acts₂, t, rfl, hgoes, hpaused, rfl⟩ := h
  rw [run_append] at hd
  exact ⟨acts₁, acts₂, t, rfl, hgoes, hpaused, rfl, fun call hentry =>
    called_of_goesOn hgoes hpaused (not_disposed_of_run _ hd) (hon acts₁ (List.prefix_append _ _))
      hentry⟩

/-- When a run for the file is stopped for the sake of a newer request for the file, then in the
end a run has been executed for the request that was dispatched last while it was in flight.
That is a request for the file, unless one of another scope was dispatched after the newer
one. -/
theorem superseded_followed {s : σ} {before acts : List (Act σ)}
    (hacts : ∀ b ∈ before ++ a :: acts, b.Available c)
    (hstop : Supersedes c ((start s).run c before) a t r)
    (hd : ((start s).run c (before ++ a :: acts)).machine.disposed = false)
    (hon : ∀ acts', acts' <+: before ++ a :: acts →
      c.flags ((start s).run c acts').machine.world = ⟨true, true, true⟩)
    (hdrained : ((start s).run c (before ++ a :: acts)).Drained) :
    let k := ((start s).run c before).after c a
    Executes c acts k (lastDispatched c t.id acts r k) ∧ (k.run c acts).machine.runs = [] ∧
      ((lastDispatched c t.id acts r k).scope = .file ∨
        ∃ acts₁ b acts₂ q, acts = acts₁ ++ b :: acts₂ ∧ (k.run c acts₁).inFlight t.id = true ∧
          (k.run c acts₁).dispatched? c b = some q ∧ q.scope ≠ .file) := by
  intro k
  have hbefore : ((start s).run c before).Coherent :=
    coherent_run fun b hb => hacts b (List.mem_append_left _ hb)
  have ha : a.Available c := hacts a (by simp)
  have hk : k.Coherent := hbefore.after ha
  have hrun : (start s).run c (before ++ a :: acts) = k.run c acts := run_append _ _ _
  rw [hrun] at hd hdrained
  have hacts : ∀ b ∈ acts, b.Available c := fun b hb => hacts b (by simp [hb])
  obtain ⟨hflight, hqueued⟩ := hstop.queued hbefore ha (not_disposed_of_run acts hd)
  refine ⟨(begins_lastDispatched hk hacts hd hdrained hflight hqueued).executes hd ?_,
    (run_induction (fun _ b hb h => h.after (hacts b hb)) hk).runs_of_drained hdrained, ?_⟩
  · intro acts' hle
    have hflags := hon (before ++ a :: acts') (by simpa using hle)
    rw [run_append] at hflags
    exact congrArg Flags.master hflags
  · obtain hsame | ⟨acts₁, b, acts₂, hsplit, hflight, hlast⟩ :=
      lastDispatched_cases c t.id acts r k
    · rw [hsame]
      exact .inl hstop.newer
    · by_cases hfile : (lastDispatched c t.id acts r k).scope = .file
      · exact .inl hfile
      · exact .inr ⟨acts₁, b, acts₂, _, hsplit, hflight, hlast, hfile⟩

end Moment

/-! ## A run that is superseded -/

namespace Desk

open Moment (Supersedes Executes Begins Drained)

/-- A run over the whole file is at its pause. -/
def atPause : Moment Desk :=
  (Moment.start twoLines).run (setup pausing) [.triggerNow true (.ok .wholeFile), .gather, .job]

theorem supersedes_atPause :
    ∃ t, t.id = 0 ∧
      Supersedes (setup pausing) atPause (.triggerNow true (.ok .wholeFile)) t .wholeFile := by
  have hone : atPause.machine.runs.map (fun t => (t.id, t.request, t.stopped)) =
      [(0, .wholeFile, false)] := by decide +kernel
  obtain ⟨t, ht, htuple⟩ := List.map_eq_singleton_iff.mp hone
  simp only [Prod.mk.injEq] at htuple
  obtain ⟨hid, hrequest, hgoing⟩ := htuple
  refine ⟨t, hid, by simp [ht], by rw [hrequest]; rfl, by decide +kernel, rfl, hgoing, ?_⟩
  rw [hid]
  decide +kernel

/-- The newer request is the last one, and it is run. -/
def supersededOnly : List (Act Desk) := [.gather, .job, .gather, .job, .gather, .job]

theorem superseded_followed_wholeFile :
    Executes (setup pausing) supersededOnly
      (atPause.after (setup pausing) (.triggerNow true (.ok .wholeFile))) .wholeFile := by
  obtain ⟨t, hid, hstop⟩ := supersedes_atPause
  have hacts : ∀ b ∈ [Act.triggerNow true (.ok .wholeFile), .gather, .job] ++
      .triggerNow true (.ok .wholeFile) :: supersededOnly, b.Available (setup pausing) := by
    simp [Act.Available, supersededOnly]
  have hfollowed := (Moment.superseded_followed hacts hstop (by decide +kernel) (fun _ _ => rfl)
    ⟨by decide +kernel, by decide +kernel, by decide +kernel⟩).1
  rw [hid] at hfollowed
  have hlast : Moment.lastDispatched (setup pausing) 0 supersededOnly .wholeFile
      (atPause.after (setup pausing) (.triggerNow true (.ok .wholeFile))) = .wholeFile := by
    decide +kernel
  exact hlast ▸ hfollowed

/-- A request for a line takes the place of the newer request for the file. -/
def supersededByLine : List (Act Desk) :=
  [.triggerNow true (.ok .oneLine), .gather, .job, .gather, .job]

/-- Then no run for the file makes up for the one that was stopped. -/
theorem superseded_not_made_up_for :
    ¬ ∀ (c : Setup Desk) (s : Desk) (before : List (Act Desk)) (a : Act Desk)
      (acts : List (Act Desk)) (t : Run) (r : Request),
      (∀ b ∈ before ++ a :: acts, b.Available c) →
      Supersedes c ((Moment.start s).run c before) a t r →
      ((Moment.start s).run c (before ++ a :: acts)).machine.disposed = false →
      (∀ acts', acts' <+: before ++ a :: acts →
        c.flags ((Moment.start s).run c acts').machine.world = ⟨true, true, true⟩) →
      ((Moment.start s).run c (before ++ a :: acts)).Drained →
      ∃ q, q.scope = .file ∧ Begins c acts (((Moment.start s).run c before).after c a) q := by
  intro h
  obtain ⟨t, -, hstop⟩ := supersedes_atPause
  obtain ⟨q, hfile, acts₁, acts₂, u, hsplit, hgoes, hpaused, rfl⟩ :=
    h (setup pausing) twoLines [.triggerNow true (.ok .wholeFile), .gather, .job] _
      supersededByLine t _ (by simp [Act.Available, supersededByLine]) hstop (by decide +kernel)
      (fun _ _ => rfl) ⟨by decide +kernel, by decide +kernel, by decide +kernel⟩
  have htake : acts₁ = supersededByLine.take acts₁.length := by rw [hsplit, List.take_left]
  have hlength : acts₁.length < 5 := by
    have := congrArg List.length hsplit
    simp only [supersededByLine, List.length_append, List.length_cons, List.length_nil] at this
    omega
  -- none of the five moments has a run for the file that is about to begin
  have hnone : ∀ n < 5, ((Moment.run (setup pausing) (supersededByLine.take n)
      (atPause.after (setup pausing) (.triggerNow true (.ok .wholeFile)))).goesOn? .job).all
        (fun u => u.paused.isSome || u.request.scope != .file) = true := by
    decide +kernel
  have hu := hnone _ hlength
  rw [← htake] at hu
  simp only [atPause] at hu
  rw [hgoes, Option.all_some, hpaused, hfile] at hu
  cases hu

end Desk

end TaskLine
