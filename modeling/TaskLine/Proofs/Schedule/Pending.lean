import TaskLine.Proofs.Schedule.Coalescing
import TaskLine.Proofs.Schedule.Failure

/-!
# What waits its turn

A request that is let through waits for its time, or behind a run, and then it is run. There is one
timer and one place in the queue (`Narrow`), so what waits is in order: the runs, the request in the
queue, the one whose timer is armed (`pending`). Which runs count depends on what one wants to know:
all that are not over, or only those that have not begun.

An act adds to this at most the request that it lets through, and that one comes last
(`pending_after`).
-/

namespace TaskLine

variable {σ : Type} {c : Setup σ}

namespace Machine

variable {m m₁ m' : Machine σ} {r : Request} {t : Run} {id : Nat} {live : Bool}
  {asked : Except RequestFault Request} {p : Option FileRun → Bool}

/-! ## One timer, one place in the queue -/

/-- The only timer is the one that is armed, and nothing is queued but behind a request that is
being run. -/
structure Narrow (m : Machine σ) : Prop where
  armed : m.timers.map (·.id) = m.armed.toList
  queued : m.queued.isSome → m.running.isSome

theorem Narrow.timers_eq_nil (h : m.Narrow) (harmed : m.armed = none) : m.timers = [] := by
  have htimers := h.armed
  rwa [harmed, Option.toList_none, List.map_eq_nil_iff] at htimers

theorem Narrow.alike (h : m.Narrow) (ha : Alike m m₁) : m₁.Narrow := by
  obtain ⟨_, _, _, _, _, _, _, _, rfl, -, -⟩ := ha
  exact ⟨h.armed, h.queued⟩

theorem Narrow.refresh (h : m.Narrow) : m.refresh.Narrow := by
  obtain ⟨_, _, heq⟩ := exists_refresh m
  rw [heq]
  exact ⟨h.armed, h.queued⟩

/-- Without its timer no timer is left. -/
theorem Narrow.disarm_eq (h : m.Narrow) : m.disarm = { m with armed := none, timers := [] } := by
  rw [disarm]
  split
  next harmed => rw [← harmed, ← h.timers_eq_nil harmed]
  next id harmed =>
    obtain ⟨t, htimers, rfl⟩ := (eq_some_iff_of_map h.armed).mp harmed
    simp [htimers]

theorem Narrow.disarm (h : m.Narrow) : m.disarm.Narrow := by
  rw [h.disarm_eq]
  exact ⟨rfl, h.queued⟩

/-- A timer that is found is the only one. -/
theorem Narrow.timers_eq {u : Timer} (h : m.Narrow) (hu : u ∈ m.timers) : m.timers = [u] := by
  cases harmed : m.armed with
  | none =>
      rw [h.timers_eq_nil harmed] at hu
      cases hu
  | some id =>
      obtain ⟨v, hv, -⟩ := (eq_some_iff_of_map h.armed).mp harmed
      rw [hv, List.mem_singleton] at hu
      rw [hv, hu]

theorem dispatch_of_stranded (hlive : (live || c.ownLoop) = false) (hd : m.disposed = false)
    (h : m.running = none) :
    m.dispatch c live r = ⟨.error .noLoop, refresh { m with running := some r }⟩ := by
  rw [dispatch, if_neg (by simp [hd]), h]
  dsimp only
  rw [if_neg (by simp [hlive])]

theorem Narrow.dispatch (h : m.Narrow) : (m.dispatch c live r).state.Narrow := by
  by_cases hd : m.disposed = true
  · rw [dispatch_of_disposed hd]
    exact h.refresh
  · have hd : m.disposed = false := Bool.eq_false_iff.mpr hd
    have hbegun : Narrow { m with running := some r } := ⟨h.armed, fun _ => rfl⟩
    cases hrunning : m.running with
    | some current =>
        obtain ⟨m₁, halike, heq⟩ := dispatch_of_running c live r hd hrunning
        rw [heq]
        obtain ⟨_, _, _, _, _, _, _, _, rfl, -, -⟩ := halike
        exact refresh ⟨h.armed, fun _ => Option.isSome_of_eq_some hrunning⟩
    | none =>
        cases hlive : live || c.ownLoop with
        | true =>
            rw [dispatch_of_idle hlive hd hrunning]
            exact ⟨hbegun.refresh.armed, hbegun.refresh.queued⟩
        | false =>
            rw [dispatch_of_stranded hlive hd hrunning]
            exact hbegun.refresh

theorem Narrow.cease (h : m.Narrow) : (m.cease id).Narrow := ⟨h.armed, nofun⟩

theorem Narrow.finishRun (h : m.Narrow) : (m.finishRun c id).Narrow := by
  have hended : (m.cease id).Narrow := h.cease
  rw [finishRun_eq]
  split
  · exact hended.refresh
  · split
    · exact hended.refresh
    · exact hended.dispatch.refresh

theorem Narrow.goneOn (h : m.Narrow) (hgone : GoneOn c id m m') : m'.Narrow := by
  obtain ⟨m₁, halike, rfl | ⟨run, rfl⟩⟩ := hgone
  · exact (h.alike halike).finishRun
  · exact ⟨(h.alike halike).armed, (h.alike halike).queued⟩

theorem Narrow.trigger (h : m.Narrow) :
    (m.trigger c live asked).state.Narrow := by
  have htriggered := triggered c live asked m
  generalize m.trigger c live asked = x at htriggered ⊢
  cases htriggered with
  | disposed | misread => exact h
  | refused r m₁ hd hm => exact (h.disarm.alike hm.alike).refresh
  | armed r m₁ hd hm =>
      have h₁ := h.disarm.alike hm.alike
      have harmed : m₁.armed = none := by
        obtain ⟨_, rfl⟩ := hm
        exact armed_disarm m
      have harm : (m₁.arm c r).Narrow := ⟨by simp [arm, h₁.timers_eq_nil harmed], h₁.queued⟩
      exact harm.refresh
  | stranded r m₁ hd hm => exact h.disarm.alike hm.alike

theorem Narrow.triggerNow (h : m.Narrow) :
    (m.triggerNow c live asked).state.Narrow := by
  have htriggered := triggeredNow c live asked m
  generalize m.triggerNow c live asked = x at htriggered ⊢
  cases htriggered with
  | disposed | misread => exact h
  | refused r m₁ hd hm => exact h.alike hm.alike
  | dispatched r m₁ hd hm => exact (h.alike hm.alike).disarm.dispatch

theorem Narrow.dispose (h : m.Narrow) : (m.dispose c).Narrow := by
  obtain ⟨m₁, halike, heq⟩ := dispose_cases c m
  have hdisposed : Narrow { m with disposed := true } := ⟨h.armed, h.queued⟩
  rw [heq]
  exact refresh ⟨(hdisposed.disarm.alike halike).armed, nofun⟩

theorem Narrow.tell {w : Waiter} (h : m.Narrow) : (m.tell c w).Narrow := by
  cases w with
  | observer n => exact ⟨h.armed, h.queued⟩
  | leaver => exact h.dispose.alike (alike_world _ _)

/-- A timer whose time has come leaves none behind. -/
theorem Narrow.expire {u : Timer} (h : m.Narrow) (hu : u ∈ m.timers) :
    { m with armed := none, timers := m.timers.filter fun v => v.id != u.id } =
      { m with armed := none, timers := [] } := by
  simp [h.timers_eq hu]

theorem Narrow.perform {j : Job} (h : m.Narrow) : (m.perform c j).Narrow := by
  cases j with
  | run id =>
      rw [Machine.perform]
      split
      · exact h.goneOn goneOn_advanceRun
      · exact h
  | expire id =>
      rw [Machine.perform]
      split
      next u hfind =>
        obtain rfl : u.id = id := by simpa using List.find?_some hfind
        rw [h.expire (List.mem_of_find?_eq_some hfind)]
        have hfired : Narrow { m with armed := none, timers := [] } := ⟨rfl, h.queued⟩
        exact hfired.dispatch
      next => exact h
  | ask w =>
      rw [Machine.perform]
      split
      · exact h.tell
      · exact ⟨h.armed, h.queued⟩
  | wake w => exact h.tell

/-! ## Attaching -/

/-- The request that is made for a host without events. -/
def single : Request := { reason := .manual, scope := .line }

/-- Whether attaching makes that request. -/
def asksOnce (c : Setup σ) (m : Machine σ) : Bool :=
  !(m.attached || m.disposed) && events.all fun e => (c.subscribe? e).isNone

theorem attach_cases (c : Setup σ) (live : Bool) (m : Machine σ) :
    m.asksOnce c = false ∧ Alike m (m.attach c live) ∨
      m.asksOnce c = true ∧ Alike (({ m with attached := true }).trigger c live (.ok single)).state
        (m.attach c live) := by
  rw [attach, asksOnce]
  split
  next hdone => exact .inl ⟨by simp [hdone], .refl m⟩
  next hnew =>
    rw [Bool.eq_false_iff.mpr hnew]
    generalize hoffered : events.filterMap (fun e => (c.subscribe? e).map fun hook => (e, hook)) =
      offered
    have hnone : offered.isEmpty = events.all fun e => (c.subscribe? e).isNone := by
      rw [← hoffered, Bool.eq_iff_iff]
      simp
    dsimp only
    rw [← hnone]
    split
    next hempty =>
      rw [hempty, List.isEmpty_iff.mp hempty, List.foldl_nil]
      refine .inr ⟨rfl, ?_⟩
      rw [single]
      split <;> rename_i h <;> rw [h]
      · exact .refl _
      · exact alike_warn _ _
    next hsome =>
      rw [Bool.eq_false_iff.mpr hsome]
      refine .inl ⟨rfl, ?_⟩
      have hattached : Alike m { m with attached := true } :=
        ⟨_, true, _, _, _, _, _, _, rfl, List.suffix_rfl, rfl⟩
      exact hattached.trans (alike_foldl (fun m o => alike_subscribe o.1 o.2 m) offered _)

/-! ## What leaves the timer alone -/

/-- Between two machines no timer was armed or ended, and no time passed. -/
structure Punctual (m m' : Machine σ) : Prop where
  timers : m'.timers = m.timers
  now : m'.now = m.now

theorem Punctual.refl (m : Machine σ) : Punctual m m := ⟨rfl, rfl⟩

theorem Punctual.trans (h₁ : Punctual m m₁) (h₂ : Punctual m₁ m') : Punctual m m' :=
  ⟨h₂.timers.trans h₁.timers, h₂.now.trans h₁.now⟩

theorem Alike.punctual (h : Alike m m₁) : Punctual m m₁ := by
  obtain ⟨_, _, _, _, _, _, _, _, rfl, -, -⟩ := h
  exact ⟨rfl, rfl⟩

theorem punctual_refresh (m : Machine σ) : Punctual m m.refresh := by
  obtain ⟨_, _, h⟩ := exists_refresh m
  rw [h]
  exact ⟨rfl, rfl⟩

theorem punctual_dispatch : Punctual m (m.dispatch c live r).state := by
  rw [dispatch]
  split
  · exact punctual_refresh m
  · have hqueued : ∀ m₁, Punctual m m₁ → Punctual m (refresh { m₁ with queued := some r }) := by
      intro m₁ h
      have hframe := punctual_refresh { m₁ with queued := some r }
      exact ⟨hframe.timers.trans h.timers, hframe.now.trans h.now⟩
    have hbegun := punctual_refresh { m with running := some r }
    dsimp only
    split
    · split
      · exact hqueued _ (alike_stopRun m).punctual
      · exact hqueued _ (.refl m)
    · split <;> exact ⟨hbegun.timers, hbegun.now⟩

theorem punctual_finishRun : Punctual m (m.finishRun c id) := by
  have hended : Punctual m (m.cease id) := ⟨rfl, rfl⟩
  rw [finishRun_eq]
  split
  · exact hended.trans (punctual_refresh _)
  · split
    · exact hended.trans (punctual_refresh _)
    · exact (hended.trans punctual_dispatch).trans (punctual_refresh _)

theorem GoneOn.punctual (h : GoneOn c id m m') : Punctual m m' := by
  obtain ⟨m₁, halike, rfl | ⟨run, rfl⟩⟩ := h
  · exact halike.punctual.trans punctual_finishRun
  · have hparked : Punctual m₁ (m₁.park id run) := ⟨rfl, rfl⟩
    exact halike.punctual.trans hparked

/-! ## What waits to be run -/

/-- The requests of the runs that have come to one of some points, and the queued one. -/
def inLine (p : Option FileRun → Bool) (m : Machine σ) : List Request :=
  (m.runs.filter fun t => p t.paused).map (·.request) ++ m.queued.toList

/-- These, and the one that waits for its time. -/
def pending (p : Option FileRun → Bool) (m : Machine σ) : List Request :=
  m.inLine p ++ m.timers.map (·.request)

theorem requests_congr {ts us : List Run} (h : us.map Run.unmarked = ts.map Run.unmarked) :
    (us.filter fun t => p t.paused).map (·.request) =
      (ts.filter fun t => p t.paused).map (·.request) := by
  have hunmarked : ∀ vs : List Run, (vs.filter fun t => p t.paused).map (·.request) =
      ((vs.map Run.unmarked).filter fun t => p t.paused).map (·.request) := by
    intro vs
    rw [List.filter_map, List.map_map]
    rfl
  rw [hunmarked, h, ← hunmarked]

theorem Alike.inLine_eq (h : Alike m m₁) : m₁.inLine p = m.inLine p := by
  obtain ⟨_, _, _, _, _, _, _, _, rfl, -, hruns⟩ := h
  rw [inLine, requests_congr hruns]
  rfl

theorem Alike.pending_eq (h : Alike m m₁) : m₁.pending p = m.pending p := by
  rw [pending, h.inLine_eq, h.punctual.timers, pending]

theorem inLine_refresh (m : Machine σ) : m.refresh.inLine p = m.inLine p := by
  obtain ⟨_, _, h⟩ := exists_refresh m
  rw [h]
  rfl

theorem pending_refresh (m : Machine σ) : m.refresh.pending p = m.pending p := by
  rw [pending, inLine_refresh, (punctual_refresh m).timers, pending]

theorem Narrow.pending_disarm (h : m.Narrow) : m.disarm.pending p = m.inLine p := by
  rw [h.disarm_eq, pending]
  exact List.append_nil _

/-- A request that is dispatched comes last, and the queued one gives way to it. -/
theorem Narrow.inLine_dispatch (h : m.Narrow) :
    ((m.dispatch c live r).state.inLine p).Sublist (m.inLine p ++ [r]) := by
  by_cases hd : m.disposed = true
  · rw [dispatch_of_disposed hd, inLine_refresh]
    exact List.sublist_append_left _ _
  · have hd : m.disposed = false := Bool.eq_false_iff.mpr hd
    cases hrunning : m.running with
    | some current =>
        obtain ⟨m₁, halike, heq⟩ := dispatch_of_running c live r hd hrunning
        rw [heq, inLine_refresh]
        obtain ⟨_, _, _, _, _, _, _, _, rfl, -, hruns⟩ := halike
        rw [inLine, inLine, requests_congr hruns, List.append_assoc]
        exact (List.sublist_append_right _ _).append_left _
    | none =>
        have hqueued : m.queued = none := by simpa [hrunning] using h.queued
        cases hlive : live || c.ownLoop with
        | true =>
            obtain ⟨_, _, hrefresh⟩ := exists_refresh { m with running := some r }
            rw [dispatch_of_idle hlive hd hrunning, hrefresh]
            simp only [inLine, enrol, hqueued, Option.toList_none, List.append_nil,
              List.filter_append, List.map_append]
            exact ((List.filter_sublist).map _).append_left _
        | false =>
            rw [dispatch_of_stranded hlive hd hrunning, inLine_refresh]
            exact List.sublist_append_left _ _

/-- Behind a run that has gone on there is only what was queued behind it. -/
theorem Narrow.inLine_goneOn (h : m.Narrow) (hgone : GoneOn c t.id m m') (honly : m.runs = [t]) :
    (m'.inLine p).Sublist m.queued.toList ∨
      ∃ run, p (some run) = true ∧ m'.inLine p = t.request :: m.queued.toList := by
  obtain ⟨m₁, halike, hm'⟩ := hgone
  have h₁ := h.alike halike
  obtain ⟨u, hu, hid, hrequest⟩ := halike.steady.only honly
  have hqueued : m₁.queued = m.queued := halike.steady.queued
  obtain rfl | ⟨run, rfl⟩ := hm'
  · left
    have hended : (m₁.cease t.id).inLine p = [] := by simp [inLine, Machine.cease, hu, hid]
    rw [finishRun_eq, ← hqueued]
    split
    · rw [inLine_refresh, hended]
      exact List.nil_sublist _
    next r hr =>
      rw [hr]
      split
      · rw [inLine_refresh, hended]
        exact List.nil_sublist _
      · have hfollows : (((m₁.cease t.id).dispatch c true r).state.inLine p).Sublist
            ((m₁.cease t.id).inLine p ++ [r]) := h₁.cease.inLine_dispatch
        rw [hended] at hfollows
        rwa [inLine_refresh]
  · cases hp : p (some run) with
    | false => exact .inl (by simp [inLine, park, hu, hid, hqueued, hp])
    | true => exact .inr ⟨run, hp, by simp [inLine, park, hu, hid, hqueued, hp, hrequest]⟩

/-- Of what waits, disposing leaves the run. -/
theorem Narrow.pending_dispose (h : m.Narrow) :
    ((m.dispose c).pending p).Sublist (m.pending p) := by
  obtain ⟨m₁, halike, heq⟩ := dispose_cases c m
  have hdisposed : Narrow { m with disposed := true } := ⟨h.armed, h.queued⟩
  rw [hdisposed.disarm_eq] at halike
  obtain ⟨_, _, _, _, _, _, _, runs, rfl, -, hruns⟩ := halike
  rw [heq, pending_refresh]
  simp only [pending, inLine, requests_congr hruns, Option.toList_none, List.append_nil,
    List.map_nil, List.append_assoc]
  exact List.sublist_append_left _ _

theorem Narrow.pending_tell (w : Waiter) (h : m.Narrow) :
    ((m.tell c w).pending p).Sublist (m.pending p) := by
  cases w with
  | observer n => exact .refl _
  | leaver => exact h.pending_dispose

/-! ## Letting through -/

/-- The request that is let through when one is made, to wait for its time. -/
def triggered? (c : Setup σ) (live : Bool) (asked : Except RequestFault Request) (m : Machine σ) :
    Option Request :=
  match (m.trigger c live asked).result, asked with
  | .ok true, .ok r => some r
  | _, _ => none

/-- A request that is armed ends the timer of the one before. -/
theorem Narrow.pending_trigger (h : m.Narrow) :
    ((m.trigger c live asked).state.pending p).Sublist
      (m.pending p ++ (m.triggered? c live asked).toList) := by
  have hdisarmed : (m.disarm.pending p).Sublist (m.pending p) := by
    rw [h.pending_disarm]
    exact List.sublist_append_left _ _
  have htriggered := triggered c live asked m
  rw [triggered?.eq_def]
  generalize m.trigger c live asked = x at htriggered ⊢
  cases htriggered with
  | disposed | misread => exact List.sublist_append_left _ _
  | refused r m₁ hd hm =>
      rw [pending_refresh, hm.alike.pending_eq]
      exact hdisarmed.trans (List.sublist_append_left _ _)
  | armed r m₁ hd hm =>
      have harm : (m₁.arm c r).pending p = m₁.pending p ++ [r] := by simp [pending, inLine, arm]
      rw [pending_refresh, harm, hm.alike.pending_eq]
      exact hdisarmed.append_right _
  | stranded r m₁ hd hm =>
      rw [hm.alike.pending_eq]
      exact hdisarmed.trans (List.sublist_append_left _ _)

end Machine

namespace Moment

open Machine (Narrow Leashed)

variable {k : Moment σ} {a : Act σ} {acts : List (Act σ)} {r : Request} {t : Run}
  {p : Option FileRun → Bool}

/-! ## Acts -/

theorem narrow_after (h : k.machine.Narrow) : (k.after c a).machine.Narrow := by
  cases a with
  | trigger live asked => exact h.trigger
  | triggerNow live asked => exact h.triggerNow
  | attach live =>
      obtain halike | ⟨m₁, asked, halike, hattached⟩ := Machine.attach_alike c live k.machine
      · exact h.alike halike
      · exact (h.alike halike).trigger.alike hattached
  | notice live n => exact h.trigger.alike Machine.notice_alike
  | dispose => exact h.dispose
  | wait w => exact ⟨h.armed, h.queued⟩
  | change f => exact ⟨h.armed, h.queued⟩
  | pass ms => exact ⟨h.armed, h.queued⟩
  | gather =>
      rw [after]
      split <;> exact ⟨h.armed, h.queued⟩
  | job =>
      rw [after]
      split
      · exact h
      · exact h.perform

theorem narrow_start (s : σ) : (start s).machine.Narrow := ⟨rfl, nofun⟩

theorem narrow_run (h : k.machine.Narrow) : (k.run c acts).machine.Narrow :=
  run_induction (P := fun k => k.machine.Narrow) (fun _ _ _ h => narrow_after h) h

/-- The request that an act lets through. -/
def admitted? (c : Setup σ) (k : Moment σ) : Act σ → Option Request
  | .trigger live asked => k.machine.triggered? c live asked
  | .notice live n => k.machine.triggered? c live (.ok (Machine.requestOf n))
  | .attach live =>
    if k.machine.asksOnce c then
      Machine.triggered? c live (.ok Machine.single) { k.machine with attached := true }
    else none
  | .triggerNow live asked => k.dispatched? c (.triggerNow live asked)
  | .dispose | .wait _ | .change _ | .pass _ | .gather | .job => none

/-- A request that is dispatched at once comes behind those that are in line, and ends the timer. -/
theorem pending_triggerNow {live : Bool} {asked : Except RequestFault Request}
    (h : k.machine.Narrow) :
    ((k.machine.triggerNow c live asked).state.pending p).Sublist
      (k.machine.pending p ++ (k.dispatched? c (.triggerNow live asked)).toList) := by
  have htriggered := Machine.triggeredNow c live asked k.machine
  simp only [dispatched?]
  generalize k.machine.triggerNow c live asked = x at htriggered ⊢
  cases htriggered with
  | disposed | misread => exact List.sublist_append_left _ _
  | refused r m₁ hd hm =>
      rw [hm.alike.pending_eq]
      exact List.sublist_append_left _ _
  | dispatched r m₁ hd hm =>
      have h₁ := h.alike hm.alike
      have hline : m₁.disarm.inLine p = k.machine.inLine p := by
        rw [h₁.disarm_eq]
        exact hm.alike.inLine_eq
      have hnone : m₁.disarm.timers = [] := by rw [h₁.disarm_eq]
      rw [Machine.pending, Machine.punctual_dispatch.timers, hnone, List.map_nil, List.append_nil]
      have hsublist : (k.machine.inLine p).Sublist (k.machine.pending p) :=
        List.sublist_append_left _ _
      cases hresult : (m₁.disarm.dispatch c live r).result with
      | ok u =>
          have hlast : ((m₁.disarm.dispatch c live r).state.inLine p).Sublist
              (m₁.disarm.inLine p ++ [r]) := h₁.disarm.inLine_dispatch
          rw [hline] at hlast
          exact hlast.trans (hsublist.append_right _)
      | error e =>
          obtain ⟨-, -, hstate⟩ := Machine.dispatch_error hresult
          rw [hstate, Machine.inLine_refresh]
          exact (hline ▸ hsublist).trans (List.sublist_append_left _ _)

/-- A job that goes on with no run adds nothing. -/
theorem pending_job (h : k.machine.Narrow) (hgoes : k.goesOn? .job = none) :
    ((k.after c .job).machine.pending p).Sublist (k.machine.pending p) := by
  obtain ⟨m, rest⟩ := k
  cases rest with
  | nil => exact .refl _
  | cons j rest =>
      cases j with
      | run id =>
          have hfind : m.runs.find? (fun t => t.id = id) = none := hgoes
          simp only [after, Machine.perform, hfind]
          exact .refl _
      | expire id =>
          simp only [after, Machine.perform]
          split
          next u hfind =>
            obtain rfl : u.id = id := by simpa using List.find?_some hfind
            have hu := List.mem_of_find?_eq_some hfind
            have hfired : Machine.Narrow { m with armed := none, timers := [] } := ⟨rfl, h.queued⟩
            have htimers : m.timers = [u] := h.timers_eq hu
            rw [h.expire hu, Machine.pending, Machine.punctual_dispatch.timers, Machine.pending,
              htimers]
            exact (List.append_nil _).symm ▸ hfired.inLine_dispatch
          next => exact .refl _
      | ask w =>
          simp only [after, Machine.perform]
          split
          · exact h.pending_tell w
          · exact .refl _
      | wake w => exact h.pending_tell w

/-- What waits after an act that goes on with no run was waiting before, or is let through. -/
theorem pending_after (h : k.machine.Narrow) (hgoes : k.goesOn? a = none) :
    ((k.after c a).machine.pending p).Sublist
      (k.machine.pending p ++ (k.admitted? c a).toList) := by
  cases a with
  | trigger live asked => exact h.pending_trigger
  | triggerNow live asked => exact pending_triggerNow h
  | attach live =>
      have hattached : Narrow { k.machine with attached := true } := ⟨h.armed, h.queued⟩
      simp only [admitted?, after]
      obtain ⟨hnot, halike⟩ | ⟨hasks, halike⟩ := Machine.attach_cases c live k.machine
      · rw [if_neg (by simp [hnot]), halike.pending_eq]
        exact List.sublist_append_left _ _
      · rw [if_pos hasks, halike.pending_eq]
        exact hattached.pending_trigger
  | notice live n =>
      rw [after, Machine.notice_alike.pending_eq]
      exact h.pending_trigger
  | dispose => exact h.pending_dispose.trans (List.sublist_append_left _ _)
  | job => exact (pending_job h hgoes).trans (List.sublist_append_left _ _)
  | gather =>
      rw [after]
      split <;> exact List.sublist_append_left _ _
  | _ => exact List.sublist_append_left _ _

/-- An act that goes on with a run does nothing else. -/
theorem exists_of_goesOn (hl : k.machine.Leashed) (hgoes : k.goesOn? a = some t) :
    a = .job ∧ k.machine.runs = [t] ∧
      Machine.GoneOn c t.id k.machine (k.after c a).machine := by
  obtain ⟨m, rest⟩ := k
  cases a with
  | job =>
      rw [goesOn?] at hgoes
      split at hgoes
      next id rest hrest =>
        obtain rfl : _ = _ := hrest
        obtain ⟨honly, -, -⟩ := hl.only t (List.mem_of_find?_eq_some hgoes)
        refine ⟨rfl, honly, ?_⟩
        simp only [after, Machine.perform, hgoes]
        exact Machine.goneOn_advanceRun
      next => cases hgoes
  | _ => cases hgoes

/-- Where a run goes on, what waits behind it goes on waiting. -/
theorem pending_goesOn (hl : k.machine.Leashed) (h : k.machine.Narrow)
    (hgoes : k.goesOn? a = some t) :
    let behind := k.machine.queued.toList ++ k.machine.timers.map (·.request)
    ((k.after c a).machine.pending p).Sublist behind ∨
      ∃ run, p (some run) = true ∧ (k.after c a).machine.pending p = t.request :: behind := by
  obtain ⟨-, honly, hgone⟩ := exists_of_goesOn (c := c) hl hgoes
  rw [Machine.pending, hgone.punctual.timers]
  obtain hbehind | ⟨run, hp, heq⟩ := h.inLine_goneOn hgone honly (p := p)
  · exact .inl (hbehind.append_right _)
  · exact .inr ⟨run, hp, by rw [heq]; rfl⟩

end Moment

end TaskLine
