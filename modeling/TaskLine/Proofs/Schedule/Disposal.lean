import TaskLine.Proofs.Schedule.Superseding

/-!
# After the end of everything

Disposing ends whatever is pending: the timer is cancelled, the queue is emptied, the run that is
under way is told to stop, and a run that has not begun finds out when it begins. What is left is
over (`Over`), and an act that finds everything over does nothing but to clear it away (`Inert`):
it makes no call of the formatter and leaves the world alone but for the display of progress. So
nothing is formatted any more, whatever happens (`disposed_final`).
-/

namespace TaskLine

variable {σ α : Type} {c : Setup σ} {view : σ → α}

namespace Machine

variable {m m₁ m₂ : Machine σ} {id : Nat} {t : Run}

/-- The scheduler was disposed of, nothing is pending, and a run that has begun was told to
stop. -/
structure Over (m : Machine σ) : Prop where
  disposed : m.disposed = true
  armed : m.armed = none
  queued : m.queued = none
  signal : m.signal = none
  held : m.held = []
  idle : m.idle = m.atRest
  told : ∀ t ∈ m.runs, ∀ run, t.paused = some run → run.Heeds ∧ t.stopped = true

/-- Being over does not depend on the world, on the time, on who waits and on the records. -/
theorem Over.frame {world : σ} {now : Nat} {ready : List Job} {waiting : List Waiter}
    {told : List Nat} {calls : List Call} (h : m.Over) :
    Over { m with world, now, ready, waiting, told, calls } :=
  ⟨h.disposed, h.armed, h.queued, h.signal, h.held, h.idle, h.told⟩

theorem refresh_eq_self (h : m.idle = m.atRest) : m.refresh = m := by
  rw [refresh]
  split
  next hrest => rw [if_pos (h.trans hrest)]
  next hrest =>
    have hidle : m.idle = false := h.trans (Bool.eq_false_iff.mpr hrest)
    rw [← hidle]

/-! ## Disposing -/

theorem over_dispose (c : Setup σ) (h : m.Leashed) : (m.dispose c).Over := by
  have hleashed := h.after_shift (shift_dispose c h)
  have hsignal := hleashed.disposed
  have hheeds := hleashed.heeds
  have hheld := hleashed.signal
  obtain ⟨world, warnings, heq⟩ := dispose_eq c m
  have hdisarmed := armed_disarm { m with disposed := true }
  have hdisposed := disposed_disarm { m with disposed := true }
  rw [heq] at hsignal hheeds hheld ⊢
  generalize disarm { m with disposed := true } = m₀ at *
  have hstop : m₀.stopRun.disposed = m₀.disposed ∧ m₀.stopRun.armed = m₀.armed := by
    rw [stopRun]
    split <;> exact ⟨rfl, rfl⟩
  obtain ⟨ready, waiting, hrefresh⟩ := exists_refresh
    { m₀.stopRun with held := [], world, warnings, queued := none }
  rw [hrefresh] at hsignal hheeds hheld ⊢
  have hd : m₀.stopRun.disposed = true := hstop.1.trans hdisposed
  refine ⟨hd, hstop.2.trans hdisarmed, rfl, hsignal hd, rfl, rfl, fun t ht run hpaused => ?_⟩
  refine ⟨hheeds t ht run hpaused, ?_⟩
  -- no signal is held any more, and a run that was not told would have one
  rw [hsignal hd] at hheld
  simp only [Option.toList_none, List.map_eq_nil_iff, List.filter_eq_nil_iff] at hheld
  have hnot := hheld t ht
  simpa [Run.stoppable, hpaused] using hnot

/-- Disposing once more changes nothing. -/
theorem Over.dispose_eq_self (h : m.Over) : m.dispose c = m := by
  have hsame : { m with disposed := true } = m := by rw [← h.disposed]
  have hheld : { m with held := [] } = m := by rw [← h.held]
  have hqueued : { m with queued := none } = m := by rw [← h.queued]
  have hstop : stopRun (disarm m) = m := by rw [disarm, h.armed, stopRun, h.signal]
  rw [dispose, hsame, hstop, hheld, h.held, List.foldl_nil, hqueued, refresh_eq_self h.idle]

/-! ## What is done when everything is over -/

/-- What happened between two machines when everything was over: no call of the formatter was made,
and what one sees of the world is the same. -/
structure Inert (view : σ → α) (m m' : Machine σ) : Prop where
  ended : m'.Over
  calls : m'.calls.filter Call.isEntry = m.calls.filter Call.isEntry
  view : view m'.world = view m.world

theorem Over.inert (h : m.Over) : Inert view m m := ⟨h, rfl, rfl⟩

theorem Inert.trans (h₁ : Inert view m m₁) (h₂ : Inert view m₁ m₂) : Inert view m m₂ :=
  ⟨h₂.ended, h₂.calls.trans h₁.calls, h₂.view.trans h₁.view⟩

/-- A run that ends when everything is over is followed by no other. -/
theorem Over.finishRun (c : Setup σ) (id : Nat) (h : m.Over) :
    Inert view m (m.finishRun c id) := by
  obtain ⟨_, _, hrefresh⟩ := exists_refresh (m.cease id)
  rw [finishRun_eq, h.queued]
  dsimp only
  rw [hrefresh]
  refine ⟨⟨h.disposed, h.armed, rfl, rfl, h.held, rfl, fun t ht => ?_⟩, rfl, rfl⟩
  exact h.told t (List.mem_of_mem_filter ht)

theorem Over.advanceRun (hview : c.formatter.Discreet view) (h : m.Over) (ht : t ∈ m.runs) :
    Inert view m (m.advanceRun c t) := by
  cases hpaused : t.paused with
  | none =>
      rw [Machine.advanceRun, hpaused]
      dsimp only
      rw [beginRun, if_pos h.disposed]
      exact h.finishRun c t.id
  | some run =>
      obtain ⟨hheeds, hstopped⟩ := h.told t ht run hpaused
      rw [advanceRun_told hpaused hheeds hstopped]
      have hclosed : Inert view m { m with
          world := run.progress.close c.formatter m.world
          calls := .fileEnd false true :: m.calls } :=
        ⟨h.frame, rfl, Progress.view_close hview m.world⟩
      exact hclosed.trans (hclosed.ended.finishRun c t.id)

theorem Over.tell (hleave : ∀ s, view (c.leave s) = view s) (w : Waiter) (h : m.Over) :
    Inert view m (m.tell c w) := by
  cases w with
  | observer n => exact ⟨h.frame, rfl, rfl⟩
  | leaver =>
      rw [Machine.tell, h.dispose_eq_self]
      exact ⟨h.frame, rfl, hleave _⟩

theorem Over.perform (hview : c.formatter.Discreet view) (hleave : ∀ s, view (c.leave s) = view s)
    (j : Job) (h : m.Over) : Inert view m (m.perform c j) := by
  cases j with
  | run id =>
      rw [Machine.perform]
      split
      next t hfind => exact h.advanceRun hview (List.mem_of_find?_eq_some hfind)
      next => exact h.inert
  | expire id =>
      rw [Machine.perform]
      split
      next t hfind =>
        obtain ⟨_, _, hrefresh⟩ := exists_refresh
          { m with armed := none, timers := m.timers.filter fun u => u.id != id }
        rw [dispatch_of_disposed (by exact h.disposed), hrefresh]
        exact ⟨⟨h.disposed, rfl, h.queued, h.signal, h.held, rfl, h.told⟩, rfl, rfl⟩
      next => exact h.inert
  | ask w =>
      rw [Machine.perform]
      split
      · exact h.tell hleave w
      · exact ⟨h.frame, rfl, rfl⟩
  | wake w => exact h.tell hleave w

end Machine

/-- Whether an act is one of the scheduler or of those who call it, and not one of the world
around. -/
def Act.own : Act σ → Bool
  | .change _ => false
  | _ => true

namespace Moment

open Machine (Over Inert)

variable {k : Moment σ} {a : Act σ}

theorem over_after (hview : c.formatter.Discreet view) (hleave : ∀ s, view (c.leave s) = view s)
    (h : k.machine.Over) (ha : a.own = true) : Inert view k.machine (k.after c a).machine := by
  have htrigger := fun live asked => Machine.trigger_of_disposed c live asked h.disposed
  cases a with
  | trigger live asked =>
      rw [after, htrigger]
      exact h.inert
  | triggerNow live asked =>
      rw [after, Machine.triggerNow_of_disposed c live asked h.disposed]
      exact h.inert
  | attach live =>
      rw [after, Machine.attach, if_pos (by simp [h.disposed])]
      exact h.inert
  | notice live n =>
      rw [after, Machine.notice, htrigger]
      exact h.inert
  | dispose =>
      rw [after, h.dispose_eq_self]
      exact h.inert
  | wait w => exact ⟨h.frame, rfl, rfl⟩
  | change f => cases ha
  | pass ms => exact ⟨h.frame, rfl, rfl⟩
  | gather =>
      rw [after]
      split
      · exact ⟨h.frame, rfl, rfl⟩
      · exact h.inert
  | job =>
      rw [after]
      split
      · exact h.inert
      · exact h.perform hview hleave _

/-- Once everything is over it stays so, and the formatter is not called any more. -/
theorem over_run (hview : c.formatter.Discreet view) (hleave : ∀ s, view (c.leave s) = view s)
    (h : k.machine.Over) (acts : List (Act σ)) :
    (k.run c acts).machine.Over ∧
      (k.run c acts).machine.calls.filter Call.isEntry =
        k.machine.calls.filter Call.isEntry := by
  refine run_induction (P := fun k' => k'.machine.Over ∧
    k'.machine.calls.filter Call.isEntry = k.machine.calls.filter Call.isEntry) ?_ ⟨h, rfl⟩
  intro k' a _ hk'
  obtain ⟨hover, hcalls⟩ := hk'
  by_cases hown : a.own = true
  · have hinert := over_after hview hleave hover hown
    exact ⟨hinert.ended, hinert.calls.trans hcalls⟩
  · -- the world around may change, the scheduler does not
    cases a with
    | change f =>
        exact ⟨hover.frame, hcalls⟩
    | _ => exact absurd rfl hown

end Moment

/-! ## A document after disposing -/

namespace Desk

/-- Whatever was pending when the scheduler was disposed of, the formatter is not called any more
and nothing that the scheduler does touches the document. Requests are turned down, and disposing
once more changes nothing. -/
theorem disposed_final (l : Layout) (s : Desk) (before later : List (Act Desk)) :
    let k := ((Moment.start s).run (setup l) before).after (setup l) .dispose
    let k' := k.run (setup l) later
    k'.machine.calls.filter Call.isEntry = k.machine.calls.filter Call.isEntry ∧
      (∀ a : Act Desk, a.own = true →
        (k'.after (setup l) a).machine.world.document.content =
          k'.machine.world.document.content) ∧
      (∀ live asked, k'.machine.trigger (setup l) live asked = ⟨.ok false, k'.machine⟩ ∧
        k'.machine.triggerNow (setup l) live asked = ⟨.ok false, k'.machine⟩) ∧
      k'.machine.dispose (setup l) = k'.machine := by
  intro k k'
  have hbefore : ((Moment.start s).run (setup l) before).machine.Leashed :=
    Moment.leashed_run (Moment.leashed_start s)
  have hdisposed : k.machine.Over := Machine.over_dispose (setup l) hbefore
  have hview : (setup l).formatter.Discreet fun d => d.document.content :=
    discreet_content l.limits l.pace
  have hleave : ∀ d, ((setup l).leave d).document.content = d.document.content := fun _ => rfl
  obtain ⟨hover, hcalls⟩ := Moment.over_run hview hleave hdisposed later
  refine ⟨hcalls, fun a ha => ?_, fun live asked => ⟨?_, ?_⟩, hover.dispose_eq_self⟩
  · exact (Moment.over_after hview hleave hover ha).view
  · exact Machine.trigger_of_disposed _ live asked hover.disposed
  · exact Machine.triggerNow_of_disposed _ live asked hover.disposed

/-- A run that is at its pause, with a request queued behind it and another one waiting for its
time, leaves the second task unwritten. -/
theorem disposed_final_busy :
    let k := ((Moment.start twoTasks).run (setup pausing) busy).after (setup pausing) .dispose
    ((k.run (setup pausing) [.gather]).after (setup pausing) .job).machine.world.document.content =
      (k.run (setup pausing) [.gather]).machine.world.document.content :=
  (disposed_final pausing twoTasks busy [.gather]).2.1 .job rfl

end Desk

end TaskLine
