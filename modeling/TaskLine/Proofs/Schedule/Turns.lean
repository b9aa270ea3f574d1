import TaskLine.Proofs.Schedule.Coherence

/-!
# What an act does to the runs

Seen from the runs, an act does one of six things: it leaves them as they are, it enrols a run
for a request that it dispatches, it queues that request behind the run that is under way, it
goes on with that run up to a pause or to its end, or it disposes of the scheduler. This is said
once (`Coherent.turn`), for every act at every coherent moment.

Which request an act dispatches (`Moment.dispatched?`) and which run it goes on with
(`Moment.goesOn?`) is read off the moment before it.
-/

namespace TaskLine

variable {σ : Type} {c : Setup σ}

namespace Machine

variable {m m₀ m₁ m₂ : Machine σ} {r : Request} {t : Run}

/-- Two machines with the same runs and the same requests to run. -/
structure Steady (m m' : Machine σ) : Prop where
  running : m'.running = m.running
  queued : m'.queued = m.queued
  disposed : m'.disposed = m.disposed
  runs : m'.runs.map Run.unmarked = m.runs.map Run.unmarked

theorem Steady.refl (m : Machine σ) : Steady m m := ⟨rfl, rfl, rfl, rfl⟩

theorem Steady.trans (h₁ : Steady m m₁) (h₂ : Steady m₁ m₂) : Steady m m₂ :=
  ⟨h₂.running.trans h₁.running, h₂.queued.trans h₁.queued, h₂.disposed.trans h₁.disposed,
    h₂.runs.trans h₁.runs⟩

theorem Alike.steady (h : Alike m m₁) : Steady m m₁ := by
  obtain ⟨_, _, _, _, _, _, _, _, rfl, -, hruns⟩ := h
  exact ⟨rfl, rfl, rfl, hruns⟩

theorem Steady.only (h : Steady m m₁) (honly : m.runs = [t]) :
    ∃ u, m₁.runs = [u] ∧ u.id = t.id ∧ u.request = t.request := by
  have hruns := h.runs
  rw [honly, List.map_singleton, List.map_eq_singleton_iff] at hruns
  obtain ⟨u, hu, hut⟩ := hruns
  rw [Run.unmarked, Run.unmarked, Run.mk.injEq] at hut
  exact ⟨u, hu, hut.1, hut.2.1⟩

theorem Steady.ids (h : Steady m m₁) : m₁.runs.map (·.id) = m.runs.map (·.id) :=
  Run.ids_of_unmarked h.runs

theorem steady_refresh (m : Machine σ) : Steady m m.refresh := by
  obtain ⟨_, _, h⟩ := exists_refresh m
  rw [h]
  exact ⟨rfl, rfl, rfl, rfl⟩

theorem runs_refresh (m : Machine σ) : m.refresh.runs = m.runs := by
  obtain ⟨_, _, h⟩ := exists_refresh m
  rw [h]

theorem nextId_refresh (m : Machine σ) : m.refresh.nextId = m.nextId := by
  obtain ⟨_, _, h⟩ := exists_refresh m
  rw [h]

theorem steady_disarm (m : Machine σ) : Steady m m.disarm := by
  rw [disarm]
  split <;> exact ⟨rfl, rfl, rfl, rfl⟩

theorem nextId_disarm (m : Machine σ) : m.disarm.nextId = m.nextId := by
  rw [disarm]
  split <;> rfl

theorem steady_trigger {live : Bool} {asked : Except RequestFault Request}
    (hlive : (live || c.ownLoop) = true) : Steady m (m.trigger c live asked).state := by
  have htriggered := triggered c live asked m
  generalize m.trigger c live asked = x at htriggered ⊢
  cases htriggered with
  | disposed | misread => exact .refl m
  | refused r m₁ hd hm => exact ((steady_disarm m).trans hm.alike.steady).trans (steady_refresh _)
  | armed r m₁ hd hm =>
      have harm : Steady m₁ (m₁.arm c r) := ⟨rfl, rfl, rfl, rfl⟩
      exact (((steady_disarm m).trans hm.alike.steady).trans harm).trans (steady_refresh _)
  | stranded r m₁ hd hm hnone => simp [hlive] at hnone

/-! ## Turns -/

/-- What an act does to the runs of a machine, with the request that it dispatches and the run
that it goes on with. -/
inductive Turn (m m' : Machine σ) : Option Request → Option Run → Prop where
  | stay (steady : Steady m m') : Turn m m' none none
  /-- A request is dispatched while nothing is being run. -/
  | enrol (r : Request) (rest : m.running = none) (running : m'.running = some r)
      (queued : m'.queued = none) (runs : m'.runs = [{ id := m.nextId, request := r }])
      (disposed : m'.disposed = false) : Turn m m' (some r) none
  /-- A request is dispatched while another one is being run. -/
  | queue (r : Request) (busy : m.running ≠ none)
      (steady : Steady { m with queued := some r } m') : Turn m m' (some r) none
  /-- The run goes on up to a pause. -/
  | pause (t : Run) (run : FileRun) (only : m.runs = [t])
      (steady : Steady { m with runs := [{ t with paused := some run }] } m') :
      Turn m m' none (some t)
  /-- The run goes on to its end, and what was queued follows. -/
  | finish (t : Run) (only : m.runs = [t]) (running : m'.running = m.queued)
      (queued : m'.queued = none)
      (runs : m'.runs = m.queued.toList.map fun r => { id := m.nextId, request := r })
      (disposed : m'.disposed = false) : Turn m m' none (some t)
  | dispose (disposed : m'.disposed = true) : Turn m m' none none

theorem turn_dispatch {live : Bool} (hruns : m.running = none → m.runs = [] ∧ m.queued = none)
    (hlive : (live || c.ownLoop) = true) (hd : m.disposed = false) (hsteady : Steady m₀ m)
    (hnext : m.nextId = m₀.nextId) : Turn m₀ (m.dispatch c live r).state (some r) none := by
  cases hrunning : m.running with
  | none =>
      obtain ⟨hruns, hqueued⟩ := hruns hrunning
      rw [dispatch_of_idle hlive hd hrunning]
      have hframe := steady_refresh { m with running := some r }
      refine .enrol r (hsteady.running ▸ hrunning) hframe.running (hframe.queued.trans hqueued) ?_
        (hframe.disposed.trans hd)
      simp [Machine.enrol, runs_refresh, nextId_refresh, hruns, hnext]
  | some current =>
      obtain ⟨m₁, halike, heq⟩ := dispatch_of_running c live r hd hrunning
      rw [heq]
      have hqueued : Steady { m₀ with queued := some r } { m₁ with queued := some r } :=
        have h := hsteady.trans halike.steady
        ⟨h.running, rfl, h.disposed, h.runs⟩
      refine .queue r ?_ (hqueued.trans (steady_refresh _))
      rw [← hsteady.running, hrunning]
      exact Option.some_ne_none current

/-- The end of the only run. -/
theorem turn_finishRun (h : Alike m m₁) (honly : m.runs = [t]) (hd : m.disposed = false) :
    Turn m (m₁.finishRun c t.id) none (some t) := by
  have hended : (m₁.cease t.id).runs = [] := by
    obtain ⟨u, hu, hid, -⟩ := h.steady.only honly
    simp [cease, hu, hid]
  have hqueued : m₁.queued = m.queued := h.steady.queued
  have hd₁ : m₁.disposed = false := h.steady.disposed.trans hd
  have hframe := steady_refresh (m₁.cease t.id)
  rw [finishRun_eq]
  -- whether a request was queued decides whether a run follows
  split
  next hq =>
    rw [hq] at hqueued
    refine .finish t honly (hframe.running.trans hqueued) hframe.queued ?_
      (hframe.disposed.trans hd₁)
    rw [runs_refresh, hended, ← hqueued]
    rfl
  next r hq =>
    rw [hq] at hqueued
    rw [if_neg (by simp [hd₁]), dispatch_of_idle (m := m₁.cease t.id) (by simp) hd₁ rfl]
    have hbegun := steady_refresh { m₁.cease t.id with running := some r }
    have hframe := steady_refresh (({ m₁.cease t.id with running := some r }).refresh.enrol r)
    refine .finish t honly (hframe.running.trans (hbegun.running.trans hqueued))
      (hframe.queued.trans hbegun.queued) ?_ (hframe.disposed.trans (hbegun.disposed.trans hd₁))
    rw [runs_refresh, ← hqueued]
    simp only [enrol, runs_refresh, nextId_refresh, hended, List.nil_append, Option.toList_some,
      List.map_cons, List.map_nil]
    rw [← h.nextId]
    rfl

theorem turn_goneOn {m' : Machine σ} (h : GoneOn c t.id m m') (honly : m.runs = [t])
    (hd : m.disposed = false) : Turn m m' none (some t) := by
  obtain ⟨m₁, halike, rfl | ⟨run, rfl⟩⟩ := h
  · exact turn_finishRun halike honly hd
  · have hsteady := halike.steady
    obtain ⟨u, hu, hid, hrequest⟩ := hsteady.only honly
    refine .pause t run honly ⟨hsteady.running, hsteady.queued, hsteady.disposed, ?_⟩
    simp [park, hu, hid, hrequest, Run.unmarked]

theorem disposed_dispose (m : Machine σ) : (m.dispose c).disposed = true := by
  obtain ⟨m₁, halike, heq⟩ := dispose_cases c m
  rw [heq, (steady_refresh _).disposed]
  exact halike.steady.disposed.trans (steady_disarm _).disposed

theorem turn_tell (w : Waiter) (m : Machine σ) : Turn m (m.tell c w) none none := by
  cases w with
  | observer n => exact .stay ⟨rfl, rfl, rfl, rfl⟩
  | leaver => exact .dispose (disposed_dispose m)

end Machine

namespace Moment

variable {k : Moment σ} {a : Act σ}

/-- The request that an act dispatches: one that is let through to be run at once, or one whose
time has come. -/
def dispatched? (c : Setup σ) (k : Moment σ) : Act σ → Option Request
  | .triggerNow live asked =>
    match (k.machine.triggerNow c live asked).result, asked with
    | .ok true, .ok r => some r
    | _, _ => none
  | .job =>
    match k.rest with
    | .expire id :: _ => (k.machine.timers.find? fun t => t.id = id).map (·.request)
    | _ => none
  | _ => none

/-- The run that an act goes on with. -/
def goesOn? (k : Moment σ) : Act σ → Option Run
  | .job =>
    match k.rest with
    | .run id :: _ => k.machine.runs.find? fun t => t.id = id
    | _ => none
  | _ => none

theorem Coherent.runs_of_running (h : k.Coherent) (hrunning : k.machine.running = none) :
    k.machine.runs = [] ∧ k.machine.queued = none := by
  have hruns := h.running
  have hqueued := h.queued
  simpa [hrunning] using And.intro hruns hqueued

open Machine (Turn Steady)

theorem turn_triggerNow {live : Bool} {asked : Except RequestFault Request} (h : k.Coherent)
    (hlive : (live || c.ownLoop) = true) :
    Turn k.machine (k.machine.triggerNow c live asked).state
      (k.dispatched? c (.triggerNow live asked)) none := by
  have htriggered := Machine.triggeredNow c live asked k.machine
  simp only [dispatched?]
  generalize k.machine.triggerNow c live asked = x at htriggered ⊢
  cases htriggered with
  | disposed | misread => exact .stay (.refl _)
  | refused r m₁ hd hm => exact .stay hm.alike.steady
  | dispatched r m₁ hd hm =>
      have hsteady := hm.alike.steady.trans (Machine.steady_disarm m₁)
      have hdisposed : m₁.disarm.disposed = false := hsteady.disposed.trans hd
      have hruns : m₁.disarm.running = none → m₁.disarm.runs = [] ∧ m₁.disarm.queued = none := by
        intro hrunning
        obtain ⟨hruns, hqueued⟩ := h.runs_of_running (hsteady.running ▸ hrunning)
        have hsame := hsteady.runs
        rw [hruns, List.map_nil, List.map_eq_nil_iff] at hsame
        exact ⟨hsame, hsteady.queued.trans hqueued⟩
      have hdone : (m₁.disarm.dispatch c live r).result = .ok () := by
        cases hrunning : m₁.disarm.running with
        | none => rw [Machine.dispatch_of_idle hlive hdisposed hrunning]
        | some current =>
            obtain ⟨_, -, hdone⟩ := Machine.dispatch_of_running c live r hdisposed hrunning
            rw [hdone]
      rw [hdone]
      exact Machine.turn_dispatch hruns hlive hdisposed hsteady
        ((Machine.nextId_disarm m₁).trans hm.alike.nextId)

theorem turn_job (h : k.Coherent) (hd : k.machine.disposed = false) :
    Turn k.machine (k.after c .job).machine (k.dispatched? c .job) (k.goesOn? .job) := by
  obtain ⟨m, rest⟩ := k
  cases rest with
  | nil => exact .stay (.refl m)
  | cons j rest =>
      cases j with
      | run id =>
          obtain ⟨t, hruns, rfl, -⟩ := h.runs_eq
          have hfind : m.runs.find? (fun u => u.id = t.id) = some t := by simp [hruns]
          simp only [after, Machine.perform, goesOn?, dispatched?, hfind]
          exact Machine.turn_goneOn Machine.goneOn_advanceRun hruns hd
      | expire id =>
          simp only [after, Machine.perform, goesOn?, dispatched?]
          cases hfind : m.timers.find? fun t => t.id = id with
          | none => exact .stay (.refl m)
          | some t =>
              exact Machine.turn_dispatch (fun hrunning => h.runs_of_running hrunning) (by simp)
                hd ⟨rfl, rfl, rfl, rfl⟩ rfl
      | ask w =>
          simp only [after, Machine.perform, goesOn?, dispatched?]
          split
          · exact Machine.turn_tell w m
          · exact .stay ⟨rfl, rfl, rfl, rfl⟩
      | wake w => exact Machine.turn_tell w m

/-- What an act does to the runs. -/
theorem Coherent.turn (h : k.Coherent) (ha : a.Available c) (hd : k.machine.disposed = false) :
    Turn k.machine (k.after c a).machine (k.dispatched? c a) (k.goesOn? a) := by
  cases a with
  | trigger live asked => exact .stay (Machine.steady_trigger ha)
  | triggerNow live asked => exact turn_triggerNow h ha
  | attach live =>
      obtain halike | ⟨m₁, asked, halike, hattached⟩ := Machine.attach_alike c live k.machine
      · exact .stay halike.steady
      · exact .stay ((halike.steady.trans (Machine.steady_trigger ha)).trans hattached.steady)
  | notice live n =>
      exact .stay ((Machine.steady_trigger ha).trans Machine.notice_alike.steady)
  | dispose => exact .dispose (Machine.disposed_dispose _)
  | wait w => exact .stay ⟨rfl, rfl, rfl, rfl⟩
  | change f => exact .stay ⟨rfl, rfl, rfl, rfl⟩
  | pass ms => exact .stay ⟨rfl, rfl, rfl, rfl⟩
  | gather =>
      rw [Moment.after]
      split <;> exact .stay ⟨rfl, rfl, rfl, rfl⟩
  | job => exact turn_job h hd

end Moment

end TaskLine
