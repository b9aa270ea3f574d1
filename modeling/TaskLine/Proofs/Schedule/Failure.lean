import TaskLine.Proofs.Schedule.Refusal

/-!
# Calls that fail

A request that cannot be understood is turned down before anything happens. That there is no loop
to schedule on is found out late: by then the timer that was armed has been ended, and a request
that is to run at once has been put down as the one that is being run, without there being a run.
So a call that fails leaves everything as it was exactly if the request was at fault, or if it was
to wait for its time and no timer was armed (`failed_undisturbed_iff`).
-/

namespace TaskLine

variable {σ : Type} {c : Setup σ}

namespace Machine

variable {m : Machine σ} {r : Request}

theorem Undisturbed.refl (m : Machine σ) : Undisturbed m m := ⟨rfl, rfl, rfl, rfl, rfl, rfl⟩

/-- Without a loop a request can still be queued. If nothing is being run it is put down as being
run, and then the loop is missing. -/
theorem dispatch_error {live : Bool} {e : TriggerFault}
    (h : (m.dispatch c live r).result = .error e) :
    e = .noLoop ∧ m.running = none ∧
      (m.dispatch c live r).state = refresh { m with running := some r } := by
  rw [dispatch] at h ⊢
  by_cases hd : m.disposed = true
  · rw [if_pos hd] at h
    cases h
  · rw [if_neg hd] at h ⊢
    cases hrunning : m.running with
    | some current =>
        rw [hrunning] at h
        cases h
    | none =>
        rw [hrunning] at h
        dsimp only at h ⊢
        split at h
        · cases h
        next hnone =>
          rw [if_neg hnone]
          exact ⟨(Except.error.inj h).symm, rfl, rfl⟩

variable {asked : Except RequestFault Request} {live : Bool} {e : TriggerFault}

/-- All that a request that was to wait for its time takes with it is the timer. -/
theorem trigger_error (h : (m.trigger c live asked).result = .error e) :
    let x := (m.trigger c live asked).state
    x.running = m.running ∧ x.runs = m.runs ∧ x.queued = m.queued ∧ x.idle = m.idle ∧
      (Undisturbed m x ↔ e ≠ .noLoop ∨ m.armed = none) := by
  have htriggered := triggered c live asked m
  generalize m.trigger c live asked = x at htriggered h ⊢
  cases htriggered with
  | disposed | refused | armed => cases h
  | misread f hd =>
      obtain rfl := Except.error.inj h
      exact ⟨rfl, rfl, rfl, rfl, fun _ => .inl nofun, fun _ => .refl m⟩
  | stranded r m₁ hd hm hlive =>
      obtain rfl := Except.error.inj h
      obtain ⟨warnings, rfl⟩ := hm
      cases harmed : m.armed with
      | none =>
          have hdisarm : m.disarm = m := by rw [disarm, harmed]
          rw [hdisarm]
          exact ⟨rfl, rfl, rfl, rfl, fun _ => .inr rfl, fun _ => ⟨rfl, rfl, rfl, rfl, rfl, rfl⟩⟩
      | some id =>
          rw [disarm, harmed]
          refine ⟨rfl, rfl, rfl, rfl, fun hkept => ?_, fun h => ?_⟩
          · have hsame := hkept.armed
            rw [harmed] at hsame
            cases hsame
          · simp at h

/-- A request that was to run at once is left behind as the one that is being run. -/
theorem triggerNow_error (h : (m.triggerNow c live asked).result = .error e) :
    let y := (m.triggerNow c live asked).state
    (Undisturbed m y ↔ e ≠ .noLoop) ∧
      (e = .noLoop → m.running = none ∧ y.running ≠ none ∧ y.runs = m.runs) := by
  have htriggered := triggeredNow c live asked m
  generalize m.triggerNow c live asked = y at htriggered h ⊢
  cases htriggered with
  | disposed | refused => cases h
  | misread f hd =>
      obtain rfl := Except.error.inj h
      exact ⟨⟨fun _ => nofun, fun _ => .refl m⟩, nofun⟩
  | dispatched r m₁ hd hm =>
      have herror : (m₁.disarm.dispatch c live r).result = .error e := by
        generalize (m₁.disarm.dispatch c live r).result = result at h
        cases result with
        | ok u => cases h
        | error f => rw [Except.error.inj h]
      obtain ⟨rfl, hrest, hstate⟩ := dispatch_error herror
      have hkept : m₁.disarm.running = m.running ∧ m₁.disarm.runs = m.runs := by
        obtain ⟨warnings, rfl⟩ := hm
        rw [disarm]
        split <;> exact ⟨rfl, rfl⟩
      obtain ⟨_, _, hrefresh⟩ := exists_refresh { m₁.disarm with running := some r }
      have hrunning : (m₁.disarm.dispatch c live r).state.running = some r := by
        rw [hstate, hrefresh]
      rw [hkept.1] at hrest
      refine ⟨⟨fun hsame => ?_, fun h => absurd rfl h⟩, fun _ => ⟨hrest, ?_, ?_⟩⟩
      · have hnone := hsame.running
        rw [hrunning, hrest] at hnone
        cases hnone
      · simp [hrunning]
      · rw [hstate, hrefresh]
        exact hkept.2

/-- A call that fails leaves everything as it was exactly if the request could not be understood,
or was to wait for its time and no timer was armed. -/
theorem failed_undisturbed_iff (c : Setup σ) (live : Bool) (asked : Except RequestFault Request)
    (m : Machine σ) :
    let x := m.trigger c live asked
    let y := m.triggerNow c live asked
    (∀ e, x.result = .error e →
        x.state.running = m.running ∧ x.state.runs = m.runs ∧ x.state.queued = m.queued ∧
          x.state.idle = m.idle ∧ (Undisturbed m x.state ↔ e ≠ .noLoop ∨ m.armed = none)) ∧
      ∀ e, y.result = .error e →
        (Undisturbed m y.state ↔ e ≠ .noLoop) ∧
          (e = .noLoop → m.running = none ∧ y.state.running ≠ none ∧ y.state.runs = m.runs) :=
  ⟨fun _ h => trigger_error h, fun _ h => triggerNow_error h⟩

end Machine

/-! ## A request without a loop -/

namespace Desk

open Machine (Undisturbed)

/-- While a run is under way, a request is queued and a timer is armed, a request that cannot be
understood changes nothing. -/
theorem failed_undisturbed_busy :
    let m := ((Moment.start twoLines).run (setup pausing) busy).machine
    Undisturbed m
        (m.trigger (setup pausing) true (Request.read "typing".toList none none)).state ∧
      Undisturbed m (m.triggerNow (setup pausing) true
        (Request.read "manual".toList (some "page".toList) none)).state := by
  intro m
  have hlater := (Machine.failed_undisturbed_iff (setup pausing) true
    (Request.read "typing".toList none none) m).1 _ rfl
  have hnow := (Machine.failed_undisturbed_iff (setup pausing) true
    (Request.read "manual".toList (some "page".toList) none) m).2 _ rfl
  exact ⟨hlater.2.2.2.2.mpr (.inl nofun), hnow.1.mpr nofun⟩

/-- A request for which there is no loop ends a timer that was armed, or is put down as being
run. -/
theorem failed_call_disturbs :
    (¬ ∀ (c : Setup Desk) (s : Desk) (acts : List (Act Desk)) (live : Bool) (reason : Text)
        (scope : Option Text) (target : Option Int) (e : TriggerFault),
      let m := ((Moment.start s).run c acts).machine
      let x := m.trigger c live (Request.read reason scope target)
      x.result = .error e → Undisturbed m x.state) ∧
    ¬ ∀ (c : Setup Desk) (s : Desk) (acts : List (Act Desk)) (live : Bool) (reason : Text)
        (scope : Option Text) (e : TriggerFault),
      let m := ((Moment.start s).run c acts).machine
      let x := m.triggerNow c live (Request.read reason scope none)
      x.result = .error e → Undisturbed m x.state := by
  constructor
  · intro h
    have harmed := (h (setup pausing) twoLines [.trigger true (.ok .oneLine)] false
      "manual".toList none none .noLoop rfl).armed
    revert harmed
    decide +kernel
  · intro h
    have hrunning := (h (setup pausing) twoLines [] false "manual".toList (some "line".toList)
      .noLoop rfl).running
    revert hrunning
    decide +kernel

end Desk

end TaskLine
