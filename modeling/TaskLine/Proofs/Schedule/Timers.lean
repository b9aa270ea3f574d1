import TaskLine.Proofs.Schedule.Readiness

/-!
# What an act does to the timer

There is at most one timer. An act leaves it as it is, or it fires it; it cancels it, which takes a
request or the end of everything; or it sets a timer for a request that is let through to wait, and
no other one is left (`timing_after`).

So the timers are numbered in the order in which they are set, and the time of a timer is among the
jobs of a step only if it had come when the step began (`timely_run`). A timer that is gone stays
gone (`Gone.run`), for a job that does not find its timer does nothing.
-/

namespace TaskLine

variable {σ : Type} {c : Setup σ}

namespace Machine

variable {m m₁ m' : Machine σ} {r : Request} {live : Bool} {asked : Except RequestFault Request}
  {o o' : Option Request}

/-- What a request that is to wait does to the timers, with the request that is made and the one
that is let through. -/
inductive Retimed (c : Setup σ) (m m' : Machine σ) : Option Request → Option Request → Prop where
  | keep (asked : Option Request) (punctual : Punctual m m') : Retimed c m m' asked none
  /-- It is not let through. -/
  | cancel (r : Request) (timers : m'.timers = []) (now : m'.now = m.now) :
    Retimed c m m' (some r) none
  | set (r : Request) (timers : m'.timers = [⟨m.nextId, m.now + c.delay, r⟩])
    (nextId : m.nextId < m'.nextId) (now : m'.now = m.now) : Retimed c m m' (some r) (some r)

theorem Retimed.alike (h : Retimed c m m₁ o o') (ha : Alike m₁ m') : Retimed c m m' o o' := by
  have hframe := ha.punctual
  cases h with
  | keep asked punctual => exact .keep _ (punctual.trans hframe)
  | cancel r timers now => exact .cancel r (hframe.timers.trans timers) (hframe.now.trans now)
  | set r timers nextId now =>
      exact .set r (hframe.timers.trans timers) (ha.nextId ▸ nextId) (hframe.now.trans now)

theorem Retimed.of_alike (h : Retimed c m₁ m' o o') (ha : Alike m m₁) : Retimed c m m' o o' := by
  have hframe := ha.punctual
  cases h with
  | keep asked punctual => exact .keep _ (hframe.trans punctual)
  | cancel r timers now => exact .cancel r timers (now.trans hframe.now)
  | set r timers nextId now =>
      rw [ha.nextId, hframe.now] at timers
      exact .set r timers (ha.nextId ▸ nextId) (now.trans hframe.now)

theorem Narrow.retimed_trigger (h : m.Narrow) : Retimed c m (m.trigger c live asked).state
    asked.toOption (m.triggered? c live asked) := by
  have htriggered := triggered c live asked m
  rw [triggered?.eq_def]
  generalize m.trigger c live asked = x at htriggered ⊢
  -- the timer that was armed is ended before anything else
  have hended : ∀ m₁, Warned m.disarm m₁ →
      m₁.timers = [] ∧ m₁.now = m.now ∧ m₁.nextId = m.nextId := by
    rintro m₁ ⟨warnings, rfl⟩
    rw [h.disarm_eq]
    exact ⟨rfl, rfl, rfl⟩
  cases htriggered with
  | disposed | misread => exact .keep _ (.refl m)
  | refused r m₁ hd hm =>
      obtain ⟨htimers, hnow, -⟩ := hended m₁ hm
      have hframe := punctual_refresh m₁
      exact .cancel r (hframe.timers.trans htimers) (hframe.now.trans hnow)
  | armed r m₁ hd hm =>
      obtain ⟨htimers, hnow, hnext⟩ := hended m₁ hm
      have hframe := punctual_refresh (m₁.arm c r)
      refine .set r (hframe.timers.trans ?_) ?_ (hframe.now.trans hnow)
      · rw [arm, htimers, hnow, hnext]
        rfl
      · rw [nextId_refresh, ← hnext]
        exact Nat.lt_succ_self _
  | stranded r m₁ hd hm =>
      obtain ⟨htimers, hnow, -⟩ := hended m₁ hm
      exact .cancel r htimers hnow

theorem Narrow.timers_dispose (h : m.Narrow) :
    (m.dispose c).timers = [] ∧ (m.dispose c).now = m.now := by
  obtain ⟨m₁, halike, heq⟩ := dispose_cases c m
  have hdisposed : Narrow { m with disposed := true } := ⟨h.armed, h.queued⟩
  rw [hdisposed.disarm_eq] at halike
  have hframe := halike.punctual
  have hrefresh := punctual_refresh { m₁ with queued := none }
  rw [heq]
  exact ⟨hrefresh.timers.trans hframe.timers, hrefresh.now.trans hframe.now⟩

end Machine

namespace Moment

open Machine (Narrow Leashed Punctual Retimed)

variable {k : Moment σ} {a : Act σ} {acts : List (Act σ)} {r : Request} {t : Timer} {id : Nat}

/-! ## Acts -/

/-- The timer that an act fires. -/
def fired? (k : Moment σ) : Act σ → Option Timer
  | .job =>
    match k.rest with
    | .expire id :: _ => k.machine.timers.find? fun t => t.id = id
    | _ => none
  | _ => none

/-- The request that an act makes, let through or not. -/
def asks? (c : Setup σ) (k : Moment σ) : Act σ → Option Request
  | .trigger _ asked | .triggerNow _ asked => asked.toOption
  | .notice _ n => some (Machine.requestOf n)
  | .attach _ => if k.machine.asksOnce c then some Machine.single else none
  | .dispose | .wait _ | .change _ | .pass _ | .gather | .job => none

/-- The request that an act lets through to wait for its time. -/
def delayed? (c : Setup σ) (k : Moment σ) : Act σ → Option Request
  | .triggerNow _ _ => none
  | a => k.admitted? c a

theorem eq_of_fired (h : k.fired? a = some t) :
    a = .job ∧ t ∈ k.machine.timers ∧ ∃ rest, k.rest = .expire t.id :: rest := by
  cases a with
  | job =>
      rw [fired?] at h
      split at h
      next id rest hrest =>
        obtain rfl : t.id = id := by simpa using List.find?_some h
        exact ⟨rfl, List.mem_of_find?_eq_some h, rest, hrest⟩
      next => cases h
  | _ => cases h

/-- What a step dispatches is what its timers have kept. -/
theorem dispatched_job (c : Setup σ) (k : Moment σ) :
    k.dispatched? c .job = (k.fired? .job).map (·.request) := by
  cases hrest : k.rest with
  | nil => simp [dispatched?, fired?, hrest]
  | cons j rest => cases j <;> simp [dispatched?, fired?, hrest]

theorem dispatched_of_delayed (h : k.delayed? c a = some r) :
    k.dispatched? c a = none ∧ k.asks? c a ≠ none := by
  cases a with
  | trigger live asked =>
      refine ⟨rfl, fun hnone => ?_⟩
      simp only [delayed?, admitted?, Machine.triggered?.eq_def] at h
      cases asked with
      | error e =>
          split at h
          next hasked => cases hasked
          next => cases h
      | ok q => cases hnone
  | attach live =>
      refine ⟨rfl, fun hnone => ?_⟩
      simp only [delayed?, admitted?] at h
      split at h
      next hasks => simp [asks?, hasks] at hnone
      next => cases h
  | notice live n => exact ⟨rfl, Option.some_ne_none _⟩
  | _ => cases h

theorem dispatched_of_silent (h : k.asks? c a = none) :
    k.dispatched? c a = (k.fired? a).map (·.request) := by
  cases a with
  | triggerNow live asked =>
      cases asked with
      | error e =>
          simp only [dispatched?, fired?]
          split
          next hasked => cases hasked
          next => rfl
      | ok q => cases h
  | job => exact dispatched_job c k
  | _ => rfl

/-- What an act does to the timers. -/
inductive Timing (c : Setup σ) (k : Moment σ) (a : Act σ) : Prop where
  | keep (timers : (k.after c a).machine.timers = k.machine.timers)
    (now : k.machine.now ≤ (k.after c a).machine.now)
    (fires : k.fired? a = none) (delays : k.delayed? c a = none)
  | fire (t : Timer) (fires : k.fired? a = some t) (only : k.machine.timers = [t])
    (timers : (k.after c a).machine.timers = [])
    (now : (k.after c a).machine.now = k.machine.now) (delays : k.delayed? c a = none)
  /-- It takes a request, or the end of everything. -/
  | cancel (cause : k.asks? c a ≠ none ∨ (k.after c a).machine.disposed = true)
    (timers : (k.after c a).machine.timers = [])
    (now : (k.after c a).machine.now = k.machine.now)
    (fires : k.fired? a = none) (delays : k.delayed? c a = none)
  | set (r : Request) (delays : k.delayed? c a = some r)
    (timers : (k.after c a).machine.timers = [⟨k.machine.nextId, k.machine.now + c.delay, r⟩])
    (nextId : k.machine.nextId < (k.after c a).machine.nextId)
    (now : (k.after c a).machine.now = k.machine.now) (fires : k.fired? a = none)

theorem timing_of_punctual (h : Punctual k.machine (k.after c a).machine)
    (hfires : k.fired? a = none) (hdelays : k.delayed? c a = none) : Timing c k a :=
  .keep h.timers (Nat.le_of_eq h.now.symm) hfires hdelays

theorem timing_of_retimed (h : Retimed c k.machine (k.after c a).machine (k.asks? c a)
    (k.delayed? c a)) (hfires : k.fired? a = none) : Timing c k a := by
  generalize hasks : k.asks? c a = q at h
  generalize hdelays : k.delayed? c a = q' at h
  cases h with
  | keep _ punctual => exact timing_of_punctual punctual hfires hdelays
  | cancel r timers now => exact .cancel (.inl (by simp [hasks])) timers now hfires hdelays
  | set r timers nextId now => exact .set r hdelays timers nextId now hfires

theorem timing_triggerNow {live : Bool} {asked : Except RequestFault Request}
    (h : k.machine.Narrow) : Timing c k (.triggerNow live asked) := by
  suffices hcases : Punctual k.machine (k.after c (.triggerNow live asked)).machine ∨
      k.asks? c (.triggerNow live asked) ≠ none ∧
        (k.after c (.triggerNow live asked)).machine.timers = [] ∧
        (k.after c (.triggerNow live asked)).machine.now = k.machine.now by
    obtain hpunctual | ⟨hasks, htimers, hnow⟩ := hcases
    · exact timing_of_punctual hpunctual rfl rfl
    · exact .cancel (.inl hasks) htimers hnow rfl rfl
  have htriggered := Machine.triggeredNow c live asked k.machine
  simp only [after, asks?]
  generalize k.machine.triggerNow c live asked = x at htriggered ⊢
  cases htriggered with
  | disposed | misread => exact .inl (.refl _)
  | refused r m₁ hd hm => exact .inl hm.alike.punctual
  | dispatched r m₁ hd hm =>
      have hdispatch : Punctual m₁.disarm (m₁.disarm.dispatch c live r).state :=
        Machine.punctual_dispatch
      rw [(h.alike hm.alike).disarm_eq] at hdispatch ⊢
      exact .inr ⟨Option.some_ne_none r, hdispatch.timers,
        hdispatch.now.trans hm.alike.punctual.now⟩

/-- One who is told may end everything. -/
theorem punctual_or_disposed_tell (w : Waiter) {m : Machine σ} (h : m.Narrow) :
    Punctual m (m.tell c w) ∨ (m.tell c w).disposed = true ∧ (m.tell c w).timers = [] ∧
      (m.tell c w).now = m.now := by
  cases w with
  | observer n => exact .inl ⟨rfl, rfl⟩
  | leaver => exact .inr ⟨Machine.disposed_dispose m, h.timers_dispose⟩

theorem timing_expire {m : Machine σ} (h : m.Narrow) (id : Nat) (rest : List Job) :
    Timing c ⟨m, .expire id :: rest⟩ .job := by
  cases hfind : m.timers.find? fun t => t.id = id with
  | none =>
      refine timing_of_punctual ?_ hfind rfl
      simp only [after, Machine.perform, hfind]
      exact .refl _
  | some t =>
      have hmem := List.mem_of_find?_eq_some hfind
      obtain rfl : t.id = id := by simpa using List.find?_some hfind
      have hperform : m.perform c (.expire t.id) = (Machine.dispatch c true t.request
          { m with armed := none, timers := [] }).state := by
        rw [Machine.perform, hfind]
        dsimp only
        rw [h.expire hmem]
      have hdispatch : Punctual { m with armed := none, timers := [] }
          (m.perform c (.expire t.id)) := by
        rw [hperform]
        exact Machine.punctual_dispatch
      exact .fire t hfind (h.timers_eq hmem) hdispatch.timers hdispatch.now rfl

theorem timing_tell {m : Machine σ} (h : m.Narrow) {j : Job} {w : Waiter} {rest : List Job}
    (hperform : m.perform c j = m.tell c w) (hfires : fired? ⟨m, j :: rest⟩ .job = none) :
    Timing c ⟨m, j :: rest⟩ .job := by
  have hafter : (after c ⟨m, j :: rest⟩ .job).machine = m.tell c w := hperform
  obtain hpunctual | ⟨hdisposed, htimers, hnow⟩ := punctual_or_disposed_tell (c := c) w h
  · exact timing_of_punctual (by rwa [hafter]) hfires rfl
  · rw [← hafter] at hdisposed htimers hnow
    exact .cancel (.inr hdisposed) htimers hnow hfires rfl

theorem timing_job (h : k.machine.Narrow) : Timing c k .job := by
  obtain ⟨m, rest⟩ := k
  cases rest with
  | nil => exact timing_of_punctual (.refl _) rfl rfl
  | cons j rest =>
      cases j with
      | run id =>
          refine timing_of_punctual ?_ rfl rfl
          simp only [after, Machine.perform]
          split
          · exact Machine.goneOn_advanceRun.punctual
          · exact .refl _
      | expire id => exact timing_expire h id rest
      | ask w =>
          cases hidle : m.idle with
          | true => exact timing_tell h (by rw [Machine.perform, if_pos hidle]) rfl
          | false =>
              refine timing_of_punctual ?_ rfl rfl
              simp only [after, Machine.perform, hidle]
              exact ⟨rfl, rfl⟩
      | wake w => exact timing_tell (w := w) h rfl rfl

/-- What an act does to the timers. -/
theorem timing_after (c : Setup σ) (a : Act σ) (h : k.machine.Narrow) : Timing c k a := by
  cases a with
  | trigger live asked => exact timing_of_retimed h.retimed_trigger rfl
  | triggerNow live asked => exact timing_triggerNow h
  | attach live =>
      have hattached : Narrow { k.machine with attached := true } := ⟨h.armed, h.queued⟩
      refine timing_of_retimed ?_ rfl
      simp only [asks?, delayed?, admitted?, after]
      obtain ⟨hnot, halike⟩ | ⟨hasks, halike⟩ := Machine.attach_cases c live k.machine
      · rw [if_neg (by simp [hnot]), if_neg (by simp [hnot])]
        exact .keep _ halike.punctual
      · rw [if_pos hasks, if_pos hasks]
        exact (hattached.retimed_trigger.alike halike).of_alike
          ⟨_, true, _, _, _, _, _, _, rfl, List.suffix_rfl, rfl⟩
  | notice live n => exact timing_of_retimed (h.retimed_trigger.alike Machine.notice_alike) rfl
  | dispose =>
      obtain ⟨htimers, hnow⟩ := h.timers_dispose (c := c)
      exact .cancel (.inr (Machine.disposed_dispose _)) htimers hnow rfl rfl
  | wait w => exact timing_of_punctual ⟨rfl, rfl⟩ rfl rfl
  | change f => exact timing_of_punctual ⟨rfl, rfl⟩ rfl rfl
  | pass ms => exact .keep rfl (Nat.le_add_right _ ms) rfl rfl
  | gather =>
      refine timing_of_punctual ?_ rfl rfl
      rw [after]
      split <;> exact ⟨rfl, rfl⟩
  | job => exact timing_job h

/-! ## Histories -/

theorem now_after (c : Setup σ) (a : Act σ) (h : k.machine.Narrow) :
    k.machine.now ≤ (k.after c a).machine.now := by
  cases timing_after c a h with
  | keep timers now => exact now
  | fire t fires only timers now => exact Nat.le_of_eq now.symm
  | cancel cause timers now => exact Nat.le_of_eq now.symm
  | set r delays timers nextId now => exact Nat.le_of_eq now.symm

theorem now_run (c : Setup σ) (acts : List (Act σ)) (h : k.machine.Narrow) :
    k.machine.now ≤ (k.run c acts).machine.now := by
  induction acts generalizing k with
  | nil => exact Nat.le_refl _
  | cons a acts ih => exact Nat.le_trans (now_after c a h) (ih (narrow_after h))

/-- Timers are told apart by their numbers, and their time comes as a step begins. -/
structure Timely (k : Moment σ) : Prop where
  leashed : k.machine.Leashed
  narrow : k.machine.Narrow
  fresh : ∀ t ∈ k.machine.timers, t.id < k.machine.nextId
  ready : ∀ id, .expire id ∉ k.machine.ready
  known : ∀ id, .expire id ∈ k.rest → id < k.machine.nextId
  due : ∀ t ∈ k.machine.timers, .expire t.id ∈ k.rest → t.due ≤ k.machine.now

theorem Timely.nextId_le (h : k.Timely) (a : Act σ) :
    k.machine.nextId ≤ (k.after c a).machine.nextId :=
  (shift_after c a h.leashed).nextId_le

/-- The time of a timer is among the jobs of a step because the timer was due. -/
theorem Timely.expire_after (h : k.Timely) (hid : .expire id ∈ (k.after c a).rest) :
    .expire id ∈ k.rest ∨
      k.begins a = true ∧ ∃ t ∈ k.machine.timers, t.due ≤ k.machine.now ∧ t.id = id := by
  obtain ⟨-, hrest⟩ | ⟨hbegins, hready | ⟨t, ht, hdue, heq⟩⟩ := rest_after hid
  · exact .inl hrest
  · exact absurd hready (h.ready id)
  · exact .inr ⟨hbegins, t, ht, hdue, (Job.expire.inj heq).symm⟩

theorem Timely.after (h : k.Timely) (a : Act σ) : (k.after c a).Timely := by
  have hnext := h.nextId_le (c := c) a
  have htiming := timing_after c a h.narrow
  refine ⟨h.leashed.after_shift (shift_after c a h.leashed), narrow_after h.narrow, ?_, ?_, ?_, ?_⟩
  · intro t ht
    cases htiming with
    | keep timers => exact Nat.lt_of_lt_of_le (h.fresh t (timers ▸ ht)) hnext
    | fire u fires only timers | cancel cause timers =>
        rw [timers] at ht
        cases ht
    | set r delays timers nextId =>
        rw [timers, List.mem_singleton] at ht
        rwa [ht]
  · intro id hid
    obtain ⟨-, hready⟩ | ⟨w, hask⟩ | hrun | ⟨⟨w, hwake⟩, -⟩ := ready_after hid
    · exact h.ready id hready
    · cases hask
    · cases hrun
    · cases hwake
  · intro id hid
    obtain hrest | ⟨-, t, ht, -, rfl⟩ := h.expire_after hid
    · exact Nat.lt_of_lt_of_le (h.known id hrest) hnext
    · exact Nat.lt_of_lt_of_le (h.fresh t ht) hnext
  · intro t ht hid
    cases htiming with
    | keep timers now =>
        rw [timers] at ht
        refine Nat.le_trans ?_ now
        obtain hrest | ⟨-, u, hu, hdue, -⟩ := h.expire_after hid
        · exact h.due t ht hrest
        · rw [h.narrow.timers_eq hu, List.mem_singleton] at ht
          rwa [ht]
    | fire u fires only timers | cancel cause timers =>
        rw [timers] at ht
        cases ht
    | set r delays timers =>
        -- the number of a timer that was just set is not among the jobs yet
        rw [timers, List.mem_singleton] at ht
        obtain rfl := ht
        obtain hrest | ⟨-, u, hu, -, hsame⟩ := h.expire_after hid
        · exact absurd (h.known _ hrest) (Nat.lt_irrefl _)
        · exact absurd (h.fresh u hu) (hsame ▸ Nat.lt_irrefl _)

theorem timely_start (s : σ) : (start s).Timely where
  leashed := leashed_start s
  narrow := narrow_start s
  fresh := by simp [start]
  ready := by simp [start]
  known := by simp [start]
  due := by simp [start]

theorem Timely.run (h : k.Timely) : (k.run c acts).Timely :=
  run_induction (fun _ a _ h => h.after a) h

theorem timely_run (s : σ) (acts : List (Act σ)) : ((start s).run c acts).Timely :=
  (timely_start s).run

/-- There is no timer of a number any more, and there will be none. -/
def Gone (id : Nat) (k : Moment σ) : Prop :=
  id < k.machine.nextId ∧ ∀ t ∈ k.machine.timers, t.id ≠ id

theorem Gone.after (h : Gone id k) (hk : k.Timely) : Gone id (k.after c a) := by
  refine ⟨Nat.lt_of_lt_of_le h.1 (hk.nextId_le a), fun t ht => ?_⟩
  cases timing_after c a hk.narrow with
  | keep timers => exact h.2 t (timers ▸ ht)
  | fire u fires only timers | cancel cause timers =>
      rw [timers] at ht
      cases ht
  | set r delays timers =>
      rw [timers, List.mem_singleton] at ht
      rw [ht]
      exact (Nat.ne_of_lt h.1).symm

theorem Gone.run (h : Gone id k) (hk : k.Timely) : Gone id (k.run c acts) := by
  induction acts generalizing k with
  | nil => exact h
  | cons a acts ih => exact ih (h.after hk) (hk.after a)

end Moment

end TaskLine
