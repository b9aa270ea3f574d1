import TaskLine.Desk
import TaskLine.Proofs.Schedule.Moments

/-!
# What holds between any two acts

The scheduler keeps account of itself in a few fields: the timer it has armed, the request that
is being run, the one that is queued, and whether it is at rest. A moment is *coherent* when
these say what is the case: there is one run that is not over exactly if something is being run,
one timer exactly if one is armed, and so on. Every act keeps a moment coherent
(`Coherent.after`) as long as there is a loop to schedule on, so every moment of every history
is coherent (`coherent_run`): no second run ever begins beside the first, and whoever waits for
the scheduler to come to rest is not left waiting.
-/

namespace TaskLine

variable {σ : Type} {c : Setup σ}

/-- The run that a job goes on with. -/
def Job.run? : Job → Option Nat
  | .run id => some id
  | .expire _ | .ask _ | .wake _ => none

/-! ## At most one -/

section

variable {α β : Type} {f : α → β} {xs : List α} {o : Option β}

theorem eq_none_iff_of_map (h : xs.map f = o.toList) : o = none ↔ xs = [] := by
  cases o with
  | none => simpa using h
  | some b =>
      obtain ⟨x, rfl, -⟩ := List.map_eq_singleton_iff.mp h
      simp

theorem eq_some_iff_of_map {b : β} (h : xs.map f = o.toList) :
    o = some b ↔ ∃ x, xs = [x] ∧ f x = b := by
  cases o with
  | none =>
      obtain rfl := List.map_eq_nil_iff.mp h
      simp
  | some b' =>
      obtain ⟨x, rfl, rfl⟩ := List.map_eq_singleton_iff.mp h
      simp

end

namespace Moment

/-- The accounts of a moment are in order, but for whether the scheduler is at rest. -/
structure Orderly (k : Moment σ) : Prop where
  /-- What is being run is the request of the only run that is not over. -/
  running : k.machine.runs.map (·.request) = k.machine.running.toList
  /-- That run goes on with one job. -/
  jobs : (k.rest ++ k.machine.ready).filterMap Job.run? = k.machine.runs.map (·.id)
  fresh : ∀ t ∈ k.machine.runs, t.id < k.machine.nextId
  /-- The only timer is the one that is armed. -/
  armed : k.machine.timers.map (·.id) = k.machine.armed.toList
  queued : k.machine.queued.isSome → k.machine.running.isSome
  disposed : k.machine.disposed → k.machine.armed = none ∧ k.machine.queued = none

/-- The accounts of a moment are in order. -/
structure Coherent (k : Moment σ) : Prop extends k.Orderly where
  /-- The scheduler is at rest exactly if no timer is armed and no request is run or queued. -/
  idle : k.machine.idle =
    (k.machine.armed.isNone && k.machine.running.isNone && k.machine.queued.isNone)

variable {m m₁ : Machine σ} {rest : List Job} {r : Request}

theorem Orderly.alike (h : Orderly ⟨m, rest⟩) (ha : m.Alike m₁) : Orderly ⟨m₁, rest⟩ := by
  obtain ⟨_, _, _, _, _, _, _, runs, rfl, -, hruns⟩ := ha
  have hsame : ∀ {α : Type} (f : Run → α), (∀ t, f t.unmarked = f t) →
      runs.map f = m.runs.map f := by
    intro α f hf
    have := congrArg (List.map f) hruns
    simpa only [List.map_map, Function.comp_def, hf] using this
  refine ⟨(hsame _ fun _ => rfl).trans h.running, h.jobs.trans (hsame _ fun _ => rfl).symm, ?_,
    h.armed, h.queued, h.disposed⟩
  intro t ht
  have hid : t.id ∈ m.runs.map (·.id) := hsame (·.id) (fun _ => rfl) ▸ List.mem_map_of_mem ht
  obtain ⟨u, hu, hut⟩ := List.mem_map.mp hid
  exact hut ▸ h.fresh u hu

theorem Coherent.alike (h : Coherent ⟨m, rest⟩) (ha : m.Alike m₁) : Coherent ⟨m₁, rest⟩ := by
  refine ⟨h.toOrderly.alike ha, ?_⟩
  obtain ⟨_, _, _, _, _, _, _, _, rfl, -, -⟩ := ha
  exact h.idle

/-- Whether the scheduler is at rest is put in order by looking. -/
theorem Orderly.refresh (h : Orderly ⟨m, rest⟩) : Coherent ⟨m.refresh, rest⟩ := by
  -- who waits may be woken, which goes on with no run
  have hwake : (m.waiting.map Job.wake).filterMap Job.run? = [] := by simp [Job.run?]
  by_cases hrest : m.atRest = true
  · rw [Machine.refresh, if_pos hrest]
    by_cases hidle : m.idle = true
    · rw [if_pos hidle]
      exact ⟨h, hidle.trans hrest.symm⟩
    · rw [if_neg hidle]
      refine ⟨⟨h.running, ?_, h.fresh, h.armed, h.queued, h.disposed⟩, hrest.symm⟩
      simpa [List.filterMap_append, hwake] using h.jobs
  · rw [Machine.refresh, if_neg hrest]
    exact ⟨⟨h.running, h.jobs, h.fresh, h.armed, h.queued, h.disposed⟩,
      (Bool.eq_false_iff.mpr hrest).symm⟩

/-! ## Timers -/

theorem Orderly.disarm (h : Orderly ⟨m, rest⟩) : Orderly ⟨m.disarm, rest⟩ := by
  cases harmed : m.armed with
  | none => rwa [Machine.disarm, harmed]
  | some id =>
      rw [Machine.disarm, harmed]
      refine ⟨h.running, h.jobs, h.fresh, ?_, h.queued, fun hd => ⟨rfl, (h.disposed hd).2⟩⟩
      have htimers : m.timers.map (·.id) = m.armed.toList := h.armed
      obtain ⟨t, ht, hid⟩ := (eq_some_iff_of_map htimers).mp harmed
      simp [ht, hid]

theorem Orderly.arm (h : Orderly ⟨m, rest⟩) (harmed : m.armed = none) (hd : m.disposed = false) :
    Orderly ⟨m.arm c r, rest⟩ := by
  have htimers : m.timers = [] := by simpa [harmed] using h.armed
  refine ⟨h.running, h.jobs, fun t ht => Nat.lt_succ_of_lt (h.fresh t ht), ?_, h.queued,
    fun hd' => ?_⟩
  · simp [Machine.arm, htimers]
  · rw [show (m.arm c r).disposed = m.disposed from rfl, hd] at hd'
    cases hd'

theorem Coherent.trigger {live : Bool} {asked : Except RequestFault Request}
    (h : Coherent ⟨m, rest⟩) (hlive : (live || c.ownLoop) = true) :
    Coherent ⟨(m.trigger c live asked).state, rest⟩ := by
  have htriggered := Machine.triggered c live asked m
  generalize m.trigger c live asked = x at htriggered ⊢
  cases htriggered with
  | disposed | misread => exact h
  | refused r m₁ hd hm => exact (h.disarm.alike hm.alike).refresh
  | armed r m₁ hd hm =>
      have h₁ := h.disarm.alike hm.alike
      obtain ⟨warnings, rfl⟩ := hm
      exact (h₁.arm (Machine.armed_disarm m) ((Machine.disposed_disarm m).trans hd)).refresh
  | stranded r m₁ hd hm hnone => simp [hlive] at hnone

/-! ## Runs -/

/-- A request that comes in is run or queued. -/
theorem Orderly.dispatch {live : Bool} (h : Orderly ⟨m, rest⟩)
    (hlive : (live || c.ownLoop) = true) : Coherent ⟨(m.dispatch c live r).state, rest⟩ := by
  by_cases hd : m.disposed = true
  · rw [Machine.dispatch_of_disposed hd]
    exact h.refresh
  · have hd : m.disposed = false := Bool.eq_false_iff.mpr hd
    cases hrunning : m.running with
    | some current =>
        obtain ⟨m₁, halike, heq⟩ := Machine.dispatch_of_running c live r hd hrunning
        rw [heq]
        have h₁ := h.alike halike
        obtain ⟨_, _, _, _, _, _, _, _, rfl, -, -⟩ := halike
        refine Orderly.refresh ⟨h₁.running, h₁.jobs, h₁.fresh, h₁.armed, fun _ => ?_, fun hd' => ?_⟩
        · exact Option.isSome_of_eq_some hrunning
        · exact absurd hd' (Bool.eq_false_iff.mp hd)
    | none =>
        -- nothing is being run, so there is neither a run nor a job of one
        have hruns : m.runs = [] := by simpa [hrunning] using h.running
        have hqueued : m.queued = none := by simpa [hrunning] using h.queued
        have hjobs : (rest ++ m.ready).filterMap Job.run? = [] := by simpa [hruns] using h.jobs
        rw [Machine.dispatch_of_idle hlive hd hrunning]
        have hbusy : Machine.atRest { m with running := some r } = false := by
          simp [Machine.atRest]
        rw [Machine.refresh, if_neg (by simp [hbusy])]
        refine ⟨⟨?_, ?_, ?_, h.armed, fun _ => rfl, h.disposed⟩, ?_⟩
        · simp [Machine.enrol, hruns]
        · rw [List.filterMap_append, List.append_eq_nil_iff] at hjobs
          simp [Machine.enrol, hruns, Job.run?, hjobs]
        · intro t ht
          simp only [Machine.enrol, hruns, List.nil_append, List.mem_singleton] at ht
          simp [ht, Machine.enrol]
        · simp [Machine.enrol]

theorem Coherent.triggerNow {live : Bool} {asked : Except RequestFault Request}
    (h : Coherent ⟨m, rest⟩) (hlive : (live || c.ownLoop) = true) :
    Coherent ⟨(m.triggerNow c live asked).state, rest⟩ := by
  have htriggered := Machine.triggeredNow c live asked m
  generalize m.triggerNow c live asked = x at htriggered ⊢
  cases htriggered with
  | disposed | misread => exact h
  | refused r m₁ hd hm => exact h.alike hm.alike
  | dispatched r m₁ hd hm => exact (h.toOrderly.alike hm.alike).disarm.dispatch hlive

/-- The job of a run finds that run, which is the only one. -/
theorem Orderly.runs_eq {id : Nat} (h : Orderly ⟨m, .run id :: rest⟩) :
    ∃ t, m.runs = [t] ∧ t.id = id ∧ m.running = some t.request ∧
      (rest ++ m.ready).filterMap Job.run? = [] := by
  have hrunning : m.runs.map (·.request) = m.running.toList := h.running
  have hjobs : id :: (rest ++ m.ready).filterMap Job.run? = m.runs.map (·.id) := h.jobs
  cases hreq : m.running with
  | none =>
      rw [(eq_none_iff_of_map hrunning).mp hreq] at hjobs
      cases hjobs
  | some r =>
      obtain ⟨t, ht, rfl⟩ := (eq_some_iff_of_map hrunning).mp hreq
      rw [ht, List.map_singleton, List.cons.injEq] at hjobs
      exact ⟨t, ht, hjobs.1.symm, rfl, hjobs.2⟩

/-- When a run is over the queued request follows. -/
theorem Orderly.finishRun {id : Nat} (h : Orderly ⟨m, .run id :: rest⟩) :
    Coherent ⟨m.finishRun c id, rest⟩ := by
  obtain ⟨t, hruns, hid, hrunning, hjobs⟩ := h.runs_eq
  -- the accounts are closed before the queued request is dispatched anew
  have hended : Orderly ⟨m.cease id, rest⟩ := by
    refine ⟨?_, ?_, ?_, h.armed, nofun, fun hd => ⟨(h.disposed hd).1, rfl⟩⟩
    · simp [Machine.cease, hruns, hid]
    · simpa [Machine.cease, hruns, hid] using hjobs
    · simp [Machine.cease, hruns, hid]
  rw [Machine.finishRun_eq]
  split
  · exact hended.refresh
  · split
    · exact hended.refresh
    · exact (hended.dispatch (by simp)).toOrderly.refresh

theorem Orderly.park {id : Nat} {run : FileRun} (h : Orderly ⟨m, .run id :: rest⟩) :
    Orderly ⟨m.park id run, rest⟩ := by
  obtain ⟨t, hruns, hid, hrunning, hjobs⟩ := h.runs_eq
  rw [List.filterMap_append, List.append_eq_nil_iff] at hjobs
  refine ⟨?_, ?_, ?_, h.armed, h.queued, h.disposed⟩
  · simp [Machine.park, hruns, hid, hrunning]
  · simp [Machine.park, hruns, hid, hjobs, Job.run?]
  · intro u hu
    have hlt : t.id < m.nextId := h.fresh t (by simp [hruns])
    simp only [Machine.park, hruns, List.map_cons, List.map_nil, hid, if_true,
      List.mem_singleton] at hu
    rw [hu]
    exact hid ▸ hlt

theorem Coherent.goneOn {id : Nat} {m' : Machine σ} (h : Coherent ⟨m, .run id :: rest⟩)
    (hgone : Machine.GoneOn c id m m') : Coherent ⟨m', rest⟩ := by
  obtain ⟨m₁, halike, rfl | ⟨run, rfl⟩⟩ := hgone
  · exact (h.alike halike).finishRun
  · exact ⟨(h.alike halike).park, (h.alike halike).idle⟩

/-! ## Jobs -/

theorem Coherent.dispose (h : Coherent ⟨m, rest⟩) : Coherent ⟨m.dispose c, rest⟩ := by
  obtain ⟨m₁, halike, heq⟩ := Machine.dispose_cases c m
  have hdisarmed : Orderly ⟨{ m.disarm with disposed := true, queued := none }, rest⟩ :=
    ⟨h.disarm.running, h.disarm.jobs, h.disarm.fresh, h.disarm.armed, nofun,
      fun _ => ⟨Machine.armed_disarm m, rfl⟩⟩
  rw [heq]
  refine Orderly.refresh (hdisarmed.alike ?_)
  have hcomm : Machine.disarm { m with disposed := true } = { m.disarm with disposed := true } := by
    simp only [Machine.disarm]
    split <;> rfl
  rw [hcomm] at halike
  obtain ⟨_, _, _, _, _, _, _, _, rfl, hcalls, hruns⟩ := halike
  exact ⟨_, _, _, _, _, _, _, _, rfl, hcalls, hruns⟩

/-- A job that goes on with no run leaves the accounts of the runs as they are. -/
theorem Orderly.pop {j : Job} (h : Orderly ⟨m, j :: rest⟩) (hj : j.run? = none) :
    Orderly ⟨m, rest⟩ := by
  have hjobs := h.jobs
  rw [List.cons_append, List.filterMap_cons_none hj] at hjobs
  exact ⟨h.running, hjobs, h.fresh, h.armed, h.queued, h.disposed⟩

theorem Coherent.pop {j : Job} (h : Coherent ⟨m, j :: rest⟩) (hj : j.run? = none) :
    Coherent ⟨m, rest⟩ :=
  ⟨h.toOrderly.pop hj, h.idle⟩

theorem Coherent.tell {w : Waiter} (h : Coherent ⟨m, rest⟩) : Coherent ⟨m.tell c w, rest⟩ := by
  cases w with
  | observer n => exact h.alike ⟨_, _, _, _, _, _, _, _, rfl, List.suffix_rfl, rfl⟩
  | leaver => exact (h.dispose (c := c)).alike (Machine.alike_world _ _)

/-- A timer whose time has come was the one that was armed. -/
theorem Orderly.expire {id : Nat} {t : Timer} (h : Orderly ⟨m, rest⟩)
    (hfind : m.timers.find? (fun t => t.id = id) = some t) :
    Orderly ⟨{ m with armed := none, timers := m.timers.filter fun u => u.id != id }, rest⟩ := by
  have hid : t.id = id := by simpa using List.find?_some hfind
  have hmem := List.mem_of_find?_eq_some hfind
  have htimers : m.timers.map (·.id) = m.armed.toList := h.armed
  refine ⟨h.running, h.jobs, h.fresh, ?_, h.queued, fun hd => ⟨rfl, (h.disposed hd).2⟩⟩
  cases harmed : m.armed with
  | none =>
      rw [(eq_none_iff_of_map htimers).mp harmed] at hmem
      cases hmem
  | some n =>
      obtain ⟨u, hu, -⟩ := (eq_some_iff_of_map htimers).mp harmed
      rw [hu, List.mem_singleton] at hmem
      simp [hu, ← hmem, hid]

theorem Coherent.perform {j : Job} (h : Coherent ⟨m, j :: rest⟩) :
    Coherent ⟨m.perform c j, rest⟩ := by
  cases j with
  | run id =>
      obtain ⟨t, hruns, rfl, -⟩ := h.runs_eq
      have hfind : m.runs.find? (fun u => u.id = t.id) = some t := by simp [hruns]
      rw [Machine.perform, hfind]
      exact h.goneOn Machine.goneOn_advanceRun
  | expire id =>
      rw [Machine.perform]
      split
      next t hfind => exact ((h.toOrderly.pop rfl).expire hfind).dispatch (by simp)
      next => exact h.pop rfl
  | ask w =>
      rw [Machine.perform]
      split
      · exact (h.pop rfl).tell
      · have hpop := h.pop rfl
        exact ⟨⟨hpop.running, hpop.jobs, hpop.fresh, hpop.armed, hpop.queued, hpop.disposed⟩,
          hpop.idle⟩
  | wake w => exact (h.pop rfl).tell

/-! ## Histories -/

theorem coherent_start (s : σ) : Coherent (start s) where
  running := rfl
  jobs := rfl
  fresh := by simp [start]
  armed := rfl
  queued := by simp [start]
  disposed := by simp [start]
  idle := rfl

theorem batch_filterMap (m : Machine σ) :
    m.batch.filterMap Job.run? = m.ready.filterMap Job.run? := by
  simp [Machine.batch, Job.run?]

/-- Every act keeps a moment coherent. -/
theorem Coherent.after {k : Moment σ} {a : Act σ} (h : k.Coherent) (ha : a.Available c) :
    (k.after c a).Coherent := by
  obtain ⟨m, rest⟩ := k
  cases a with
  | trigger live asked => exact h.trigger ha
  | triggerNow live asked => exact h.triggerNow ha
  | attach live =>
      obtain halike | ⟨m₁, asked, halike, hattached⟩ := Machine.attach_alike c live m
      · exact h.alike halike
      · exact ((h.alike halike).trigger ha).alike hattached
  | notice live n => exact (h.trigger ha).alike Machine.notice_alike
  | dispose => exact h.dispose
  | wait w =>
      refine ⟨⟨h.running, ?_, h.fresh, h.armed, h.queued, h.disposed⟩, h.idle⟩
      have hask : [Job.ask w].filterMap Job.run? = [] := rfl
      simpa [Moment.after, Machine.wait, List.filterMap_append, hask] using h.jobs
  | change f => exact h.alike (Machine.alike_world _ m)
  | pass ms => exact ⟨⟨h.running, h.jobs, h.fresh, h.armed, h.queued, h.disposed⟩, h.idle⟩
  | gather =>
      rw [Moment.after]
      split
      next hrest =>
        obtain rfl : rest = [] := by simpa using hrest
        refine ⟨⟨h.running, ?_, h.fresh, h.armed, h.queued, h.disposed⟩, h.idle⟩
        simpa [batch_filterMap] using h.jobs
      next => exact h
  | job =>
      cases rest with
      | nil => exact h
      | cons j rest => exact h.perform

/-- Every moment of every history is coherent, as long as there is a loop to schedule on. -/
theorem coherent_run {s : σ} {acts : List (Act σ)} (hacts : ∀ a ∈ acts, a.Available c) :
    ((start s).run c acts).Coherent :=
  run_induction (fun _ a ha h => h.after (hacts a ha)) (coherent_start s)

/-- There are never two runs, and never two timers; nothing is queued but behind a run; and the
scheduler is at rest exactly if nothing is armed, run or queued. -/
theorem run_accounts {s : σ} {acts : List (Act σ)} (hacts : ∀ a ∈ acts, a.Available c) :
    let k := (start s).run c acts
    let m := k.machine
    (∀ r, m.running = some r ↔
        ∃ t, m.runs = [t] ∧ t.request = r ∧ (k.rest ++ m.ready).filterMap Job.run? = [t.id]) ∧
      (m.running = none ↔ m.runs = []) ∧
      (∀ id, m.armed = some id ↔ ∃ t, m.timers = [t] ∧ t.id = id) ∧
      (m.armed = none ↔ m.timers = []) ∧
      (m.queued ≠ none → m.running ≠ none) ∧
      (m.disposed = true → m.armed = none ∧ m.queued = none) ∧
      (m.idle = true ↔ m.armed = none ∧ m.running = none ∧ m.queued = none) := by
  intro k m
  have h : k.Coherent := coherent_run hacts
  have hrunning : m.runs.map (·.request) = m.running.toList := h.running
  have hjobs : (k.rest ++ m.ready).filterMap Job.run? = m.runs.map (·.id) := h.jobs
  have harmed : m.timers.map (·.id) = m.armed.toList := h.armed
  have hqueued : m.queued.isSome → m.running.isSome := h.queued
  have hidle : m.idle = (m.armed.isNone && m.running.isNone && m.queued.isNone) := h.idle
  refine ⟨fun r => (eq_some_iff_of_map hrunning).trans ⟨?_, ?_⟩, eq_none_iff_of_map hrunning,
    fun id => eq_some_iff_of_map harmed, eq_none_iff_of_map harmed, fun hq => ?_, h.disposed, ?_⟩
  · rintro ⟨t, ht, hrequest⟩
    exact ⟨t, ht, hrequest, by rw [hjobs, ht]; rfl⟩
  · rintro ⟨t, ht, hrequest, -⟩
    exact ⟨t, ht, hrequest⟩
  · rw [← Option.isSome_iff_ne_none] at hq ⊢
    exact hqueued hq
  · simp [hidle, and_assoc]

end Moment

/-! ## A busy scheduler -/

/-- A desk whose runs over the whole file pause behind every line but the first. -/
def Desk.pausing : Desk.Layout := { pace := { pauseEvery := 1 }, switched := false }

def Desk.twoLines : Desk := { document := .ofLines ["a".toList, "b".toList] 0 none }

def Request.wholeFile : Request := { reason := .manual, scope := .file }

def Request.oneLine : Request := { reason := .manual, scope := .line }

/-- A run for the file is at its pause, a line is queued behind it, and a timer is armed. -/
def Desk.busy : List (Act Desk) :=
  [.triggerNow true (.ok .wholeFile), .gather, .job, .triggerNow true (.ok .oneLine),
    .trigger true (.ok .wholeFile)]

theorem Desk.run_accounts_busy :
    (∀ a ∈ busy, a.Available (setup pausing)) ∧
      ((Moment.start twoLines).run (setup pausing) busy).machine.queued = some .oneLine ∧
      ∃ t, ((Moment.start twoLines).run (setup pausing) busy).machine.runs = [t] ∧
        t.request = .wholeFile := by
  have hacts : ∀ a ∈ busy, a.Available (setup pausing) := by simp [busy, Act.Available]
  have hrunning : ((Moment.start twoLines).run (setup pausing) busy).machine.running =
      some .wholeFile := by decide +kernel
  obtain ⟨t, ht, hrequest, -⟩ := ((Moment.run_accounts hacts).1 .wholeFile).mp hrunning
  exact ⟨hacts, by decide +kernel, t, ht, hrequest⟩

end TaskLine
