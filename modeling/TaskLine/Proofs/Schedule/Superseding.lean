import TaskLine.Proofs.Formatter.Snapshot
import TaskLine.Proofs.Schedule.Signals
import TaskLine.Proofs.Schedule.Turns

/-!
# What a superseded run still does

When a request for the file is dispatched while a run for the file is in flight, the older run is
told to stop, provided that it has begun (`runs_dispatch_file`): before that there is no signal to
tell it with. A run that was told to stop does one more thing, which is to take the display of its
progress away (`advanceRun_told`), so the document stays as it is (`superseded_silent`). A run that
has not begun is not told, begins as if nothing had happened, and writes
(`superseded_unbegun_writes`).
-/

namespace TaskLine

variable {σ α : Type} {c : Setup σ} {view : σ → α}

namespace Machine

variable {m m' m₁ : Machine σ} {t : Run} {id : Nat} {r : Request}

/-! ## Being told to stop -/

/-- Behind a pause at which it was told to stop a run takes its display away and is over. -/
theorem advanceRun_told {run : FileRun} (hpaused : t.paused = some run) (hheeds : run.Heeds)
    (hstopped : t.stopped = true) :
    m.advanceRun c t = finishRun c t.id { m with
      world := run.progress.close c.formatter m.world
      calls := .fileEnd false true :: m.calls } := by
  rw [advanceRun, hpaused]
  dsimp only
  rw [hstopped, hheeds.resume_stopped]
  rfl

theorem view_advanceRun_told {run : FileRun} (hview : c.formatter.Discreet view)
    (hpaused : t.paused = some run) (hheeds : run.Heeds) (hstopped : t.stopped = true) :
    view (m.advanceRun c t).world = view m.world := by
  rw [advanceRun_told hpaused hheeds hstopped, quiet_finishRun.world]
  exact Progress.view_close hview m.world

/-- Only a run that has begun can be told. -/
theorem runs_stopRun (h : m.Leashed) (ht : t ∈ m.runs) :
    m.stopRun.runs = [{ t with stopped := t.paused.isSome }] := by
  have honly := (h.only t ht).1
  cases hsignal : m.signal with
  | none =>
      have hheld := h.signal
      have hsame : t.paused.isSome = t.stopped := by
        cases hstopped : t.stopped with
        | true => exact h.begun t ht hstopped
        | false => simpa [honly, hsignal, Run.stoppable, hstopped] using hheld
      rw [stopRun, hsignal, hsame]
      exact honly
  | some id =>
      obtain ⟨u, hu, rfl, hstoppable⟩ := h.held hsignal
      obtain rfl : t = u := by simpa [hu] using ht
      have hbegun : t.paused.isSome = true := by
        simp only [Run.stoppable, Bool.and_eq_true] at hstoppable
        exact hstoppable.1
      rw [stopRun, hsignal, hbegun]
      simp [hu]

/-- A request for the file tells the run for the file that is in flight to stop, if that has
begun. -/
theorem runs_dispatch_file {live : Bool} (h : m.Leashed) (ht : t ∈ m.runs)
    (hfile : t.request.scope = .file) (hnewer : r.scope = .file) :
    (m.dispatch c live r).state.runs = [{ t with stopped := t.paused.isSome }] := by
  by_cases hd : m.disposed = true
  · have hstop : m.stopRun = m := by rw [stopRun, h.disposed hd]
    rw [dispatch_of_disposed hd, (calm_refresh m).runs, ← runs_stopRun h ht, hstop]
  · rw [dispatch, if_neg hd, (h.only t ht).2.1]
    dsimp only
    rw [if_pos ⟨hnewer, hfile⟩, ← runs_stopRun h ht]
    exact (calm_refresh _).runs

end Machine

namespace Moment

open Machine (Leashed Calm Told)

variable {k : Moment σ} {a : Act σ} {r : Request} {t : Run} {id : Nat}

/-- What dispatches a request does nothing else to the run and to the signal. -/
theorem exists_dispatch (hdispatched : k.dispatched? c a = some r) :
    ∃ live m₁, Calm k.machine m₁ ∧ (k.after c a).machine = (m₁.dispatch c live r).state := by
  cases a with
  | triggerNow live asked =>
      have htriggered := Machine.triggeredNow c live asked k.machine
      simp only [dispatched?, after] at hdispatched ⊢
      generalize k.machine.triggerNow c live asked = x at htriggered hdispatched ⊢
      cases htriggered with
      | disposed | misread | refused => simp at hdispatched
      | dispatched q m₁ hd hm =>
          split at hdispatched
          next heq =>
            cases heq
            obtain rfl := Option.some.inj hdispatched
            exact ⟨live, _, hm.calm.trans (Machine.calm_disarm m₁), rfl⟩
          next => cases hdispatched
  | job =>
      obtain ⟨m, rest⟩ := k
      simp only [dispatched?] at hdispatched
      split at hdispatched
      next id rest =>
        obtain ⟨t, hfind, rfl⟩ := Option.map_eq_some_iff.mp hdispatched
        refine ⟨true, { m with armed := none, timers := m.timers.filter fun u => u.id != id },
          Machine.calm_frame, ?_⟩
        simp only [after, Machine.perform, hfind]
      next => cases hdispatched
  | _ => cases hdispatched

/-- Nothing that a run does in the course of a history changes what one sees of the world. -/
def Silent (c : Setup σ) (view : σ → α) (id : Nat) (acts : List (Act σ)) (k : Moment σ) : Prop :=
  ∀ acts₁ a acts₂ t, acts = acts₁ ++ a :: acts₂ → (k.run c acts₁).goesOn? a = some t →
    t.id = id →
    view ((k.run c acts₁).after c a).machine.world = view (k.run c acts₁).machine.world

theorem view_goesOn (hview : c.formatter.Discreet view) (h : k.machine.Leashed)
    (hgoes : k.goesOn? a = some t) (hstopped : t.stopped = true) :
    view (k.after c a).machine.world = view k.machine.world := by
  obtain ⟨m, rest⟩ := k
  cases a with
  | job =>
      simp only [goesOn?] at hgoes
      split at hgoes
      next id rest =>
        have ht := List.mem_of_find?_eq_some hgoes
        obtain ⟨run, hpaused⟩ := Option.isSome_iff_exists.mp (h.begun t ht hstopped)
        simp only [after, Machine.perform, hgoes]
        exact Machine.view_advanceRun_told hview hpaused (h.heeds t ht run hpaused) hstopped
      next => cases hgoes
  | _ => cases hgoes

/-- A run that was told to stop leaves everything alone that showing progress leaves alone. -/
theorem silent_of_told (hview : c.formatter.Discreet view) (h : k.machine.Leashed)
    (htold : Told id k.machine) (acts : List (Act σ)) : Silent c view id acts k := by
  intro acts₁ a acts₂ t hsplit hgoes hid
  have hleashed : (k.run c acts₁).machine.Leashed := leashed_run h
  refine view_goesOn hview hleashed hgoes ?_
  have hmem : t ∈ (k.run c acts₁).machine.runs := by
    cases a with
    | job =>
        simp only [goesOn?] at hgoes
        split at hgoes
        · exact List.mem_of_find?_eq_some hgoes
        · cases hgoes
    | _ => cases hgoes
  exact (told_run h htold).stopped t hmem hid

end Moment

/-! ## Runs over a document -/

namespace Desk

open Moment (Silent)

/-- Once a request for the file is dispatched while a run for the file is in flight, that run is
told to stop if it has begun, and then it writes nothing any more. If it has not begun it is left
as it was. -/
theorem superseded_silent (l : Layout) {s : Desk} {before : List (Act Desk)} {a : Act Desk}
    {t : Run} {r : Request} (ht : t ∈ ((Moment.start s).run (setup l) before).machine.runs)
    (hfile : t.request.scope = .file)
    (hdispatched : ((Moment.start s).run (setup l) before).dispatched? (setup l) a = some r)
    (hnewer : r.scope = .file) :
    let k := ((Moment.start s).run (setup l) before).after (setup l) a
    k.machine.runs = [{ t with stopped := t.paused.isSome }] ∧
      (t.paused.isSome = true →
        ∀ acts, Silent (setup l) (fun d => d.document.content) t.id acts k) := by
  intro k
  have hbefore : ((Moment.start s).run (setup l) before).machine.Leashed :=
    Moment.leashed_run (Moment.leashed_start s)
  obtain ⟨live, m₁, hcalm, hafter⟩ := Moment.exists_dispatch hdispatched
  have hruns : k.machine.runs = [{ t with stopped := t.paused.isSome }] := by
    rw [hafter]
    exact Machine.runs_dispatch_file (hbefore.calm hcalm) (hcalm.runs ▸ ht) hfile hnewer
  have hk : k.machine.Leashed := hbefore.after_shift (Moment.shift_after (setup l) a hbefore)
  refine ⟨hruns, fun hbegun acts => ?_⟩
  have htold : Machine.Told t.id k.machine := by
    refine ⟨(hk.only { t with stopped := t.paused.isSome } (by simp [hruns])).2.2, ?_⟩
    simp [hruns, hbegun]
  exact Moment.silent_of_told (discreet_content l.limits l.pace) hk htold acts

/-- A run over two tasks, the second of which is to be written, is at its pause. -/
def tasksAtPause : List (Act Desk) := [.triggerNow true (.ok .wholeFile), .gather, .job]

theorem superseded_silent_tasksAtPause :
    ∃ t : Run, ((Moment.start twoTasks).run (setup pausing)
        (tasksAtPause ++ [.triggerNow true (.ok .wholeFile)])).machine.runs =
          [{ t with stopped := true }] ∧
      ∀ acts, Silent (setup pausing) (fun d => d.document.content) t.id acts
        ((Moment.start twoTasks).run (setup pausing)
          (tasksAtPause ++ [.triggerNow true (.ok .wholeFile)])) := by
  have hone : ((Moment.start twoTasks).run (setup pausing) tasksAtPause).machine.runs.map
      (fun t => (t.request, t.paused.isSome)) = [(.wholeFile, true)] := by decide +kernel
  obtain ⟨t, ht, hpair⟩ := List.map_eq_singleton_iff.mp hone
  obtain ⟨hrequest, hbegun⟩ := Prod.mk.inj hpair
  have hmem : t ∈ ((Moment.start twoTasks).run (setup pausing) tasksAtPause).machine.runs := by
    rw [ht]
    exact List.mem_singleton_self t
  have hdispatched : ((Moment.start twoTasks).run (setup pausing) tasksAtPause).dispatched?
      (setup pausing) (.triggerNow true (.ok .wholeFile)) = some .wholeFile := by decide +kernel
  obtain ⟨hruns, hsilent⟩ := superseded_silent pausing hmem (by rw [hrequest]; rfl) hdispatched rfl
  rw [hbegun] at hruns
  rw [Moment.run_append]
  exact ⟨t, hruns, hsilent hbegun⟩

/-- A run that has not begun writes although it was superseded. -/
theorem superseded_unbegun_writes :
    ¬ ∀ (l : Layout) (s : Desk) (before : List (Act Desk)) (a : Act Desk) (t : Run) (r : Request)
      (acts : List (Act Desk)),
      t ∈ ((Moment.start s).run (setup l) before).machine.runs → t.request.scope = .file →
      ((Moment.start s).run (setup l) before).dispatched? (setup l) a = some r →
      r.scope = .file →
      Silent (setup l) (fun d => d.document.content) t.id acts
        (((Moment.start s).run (setup l) before).after (setup l) a) := by
  intro h
  have hsilent := h { switched := false } twoTasks [.triggerNow true (.ok .wholeFile)]
    (.triggerNow true (.ok .wholeFile)) { id := 0, request := .wholeFile } .wholeFile
    [.gather, .job] (List.mem_singleton_self _) rfl (by decide +kernel) rfl
    [.gather] .job [] { id := 0, request := .wholeFile } rfl rfl rfl
  have hlines := congrArg Document.lines hsilent
  revert hlines
  decide +kernel

end Desk

end TaskLine
