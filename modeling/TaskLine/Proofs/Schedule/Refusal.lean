import TaskLine.Proofs.Schedule.Coherence

/-!
# Requests that are refused

A request that the switches do not let through is refused. It is refused only after the timer
that was armed has been ended, and whoever armed it is not told. So a refused request leaves
everything as it was exactly if no timer was armed (`trigger_refused_iff`), given that the
scheduler knew whether it was at rest.
-/

namespace TaskLine

variable {σ : Type} {c : Setup σ}

namespace Machine

variable {m : Machine σ}

/-- Nothing that is armed, run or queued differs, and neither does whether the scheduler is at
rest. -/
structure Undisturbed (m m' : Machine σ) : Prop where
  armed : m'.armed = m.armed
  timers : m'.timers = m.timers
  running : m'.running = m.running
  runs : m'.runs = m.runs
  queued : m'.queued = m.queued
  idle : m'.idle = m.idle

theorem undisturbed_refresh_iff : Undisturbed m m.refresh ↔ m.idle = m.atRest := by
  obtain ⟨_, _, h⟩ := exists_refresh m
  rw [h]
  exact ⟨fun h => h.idle.symm, fun h => ⟨rfl, rfl, rfl, rfl, rfl, h.symm⟩⟩

/-- A refused request leaves what is run and what is queued as it was, and all the rest exactly
if no timer was armed and the scheduler had put down whether it was at rest. -/
theorem trigger_refused_iff {live : Bool} {reason : Text} {scope : Option Text}
    {target : Option Int} {r : Request} (hasked : Request.read reason scope target = .ok r)
    (hd : m.disposed = false) (hrefused : (c.flags m.world).allows r.reason = false) :
    let x := m.trigger c live (Request.read reason scope target)
    x.result = .ok false ∧ x.state.running = m.running ∧ x.state.queued = m.queued ∧
      (Undisturbed m x.state ↔ m.armed = none ∧ m.idle = m.atRest) := by
  have hdisarm : m.disarm.world = m.world ∧ m.disarm.running = m.running ∧
      m.disarm.queued = m.queued := by
    rw [disarm]
    split <;> exact ⟨rfl, rfl, rfl⟩
  obtain ⟨hworld, hrunning, hqueued⟩ := hdisarm
  obtain ⟨warnings, hread⟩ := readSwitches_eq c m.disarm
  have heq : m.trigger c live (.ok r) = ⟨.ok false, refresh { m.disarm with warnings }⟩ := by
    rw [trigger.eq_def, if_neg (by simp [hd])]
    simp only [hread, hworld, hrefused, Bool.not_false, if_true]
  obtain ⟨_, _, hrefresh⟩ := exists_refresh { m.disarm with warnings }
  rw [hasked, heq]
  refine ⟨rfl, by rw [hrefresh]; exact hrunning, by rw [hrefresh]; exact hqueued, ?_⟩
  -- a timer that was armed is gone in any case; without one only the looking is left
  cases harmed : m.armed with
  | none =>
      have hdisarm : m.disarm = m := by rw [disarm, harmed]
      have hiff := undisturbed_refresh_iff (m := { m with warnings })
      rw [hdisarm]
      refine ⟨fun h => ⟨rfl, hiff.mp ⟨h.armed, h.timers, h.running, h.runs, h.queued, h.idle⟩⟩,
        fun h => ?_⟩
      have hkept := hiff.mpr h.2
      exact ⟨hkept.armed, hkept.timers, hkept.running, hkept.runs, hkept.queued, hkept.idle⟩
  | some id =>
      rw [hrefresh]
      refine ⟨fun h => ?_, fun h => absurd h.1 (Option.some_ne_none id)⟩
      have hkept : m.disarm.armed = m.armed := h.armed
      rw [armed_disarm, harmed] at hkept
      cases hkept

end Machine

/-! ## A refusal that ends a timer -/

namespace Desk

open Machine (Undisturbed)

/-- Requests for single lines are not let through when a line was committed. -/
def gated : Desk := { twoLines with switches := .ok ⟨true, false, true⟩ }

def gatedSetup : Setup Desk := setup { pausing with switched := true }

/-- While a run is under way and a request is queued behind it a refused request changes nothing.
-/
theorem trigger_refused_underWay :
    let m := ((Moment.start gated).run gatedSetup [.triggerNow true (.ok .wholeFile), .gather, .job,
      .triggerNow true (.ok .oneLine)]).machine
    m.queued = some .oneLine ∧
      Undisturbed m (m.trigger gatedSetup true (Request.read "commit".toList none none)).state := by
  intro m
  have hasked : Request.read "commit".toList none none = .ok ⟨.commit, .line, none⟩ := rfl
  have hrefused : (gatedSetup.flags m.world).allows .commit = false := by decide +kernel
  have hundisturbed : Undisturbed m (m.trigger gatedSetup true
      (Request.read "commit".toList none none)).state ↔ m.armed = none ∧ m.idle = m.atRest :=
    (Machine.trigger_refused_iff hasked (by decide +kernel) hrefused).2.2.2
  exact ⟨by decide +kernel, hundisturbed.mpr ⟨by decide +kernel, by decide +kernel⟩⟩

/-- A request that is refused ends the timer of one that was let through. -/
theorem trigger_refused_disarms :
    ¬ ∀ (c : Setup Desk) (s : Desk) (acts : List (Act Desk)) (reason : Text) (scope : Option Text)
      (target : Option Int) (r : Request),
      (∀ a ∈ acts, a.Available c) → Request.read reason scope target = .ok r →
      let m := ((Moment.start s).run c acts).machine
      m.disposed = false → (c.flags m.world).allows r.reason = false →
      Undisturbed m (m.trigger c true (Request.read reason scope target)).state := by
  intro h
  have hkept := h gatedSetup gated [.trigger true (.ok .oneLine)] "commit".toList none none
    ⟨.commit, .line, none⟩ (by simp [Act.Available]) rfl (by decide +kernel) (by decide +kernel)
  have harmed := hkept.armed
  revert harmed
  decide +kernel

end Desk

end TaskLine
