import TaskLine.Proofs.Schedule.Pending

/-!
# What becomes ready

A job becomes ready when someone asks for something, when a run is enrolled or pauses, and, as soon
as the scheduler comes to rest, for each of those who wait for that (`ready_after`). The jobs of a
step are the ones that were ready when it began, and one for each timer that was due by then
(`rest_after`). So a timer goes off only in a step that began after its time.

Nobody who asks to be told gets lost on the way: they ask, wait and are woken (`expecting`).
-/

namespace TaskLine

variable {σ : Type} {c : Setup σ}

/-- Who is told by a job. -/
def Job.waiter? : Job → Option Waiter
  | .ask w | .wake w => some w
  | .run _ | .expire _ => none

namespace Machine

variable {m m₁ m' : Machine σ} {r : Request} {id : Nat} {live : Bool}
  {asked : Except RequestFault Request}

/-- Who is yet to be told that the scheduler is at rest, but for those whose turn it is. -/
def expecting (m : Machine σ) : List Waiter := m.waiting ++ m.ready.filterMap Job.waiter?

/-- Two machines with the same jobs that are ready, and the same ones who wait. -/
structure Still (m m' : Machine σ) : Prop where
  ready : m'.ready = m.ready
  waiting : m'.waiting = m.waiting
  idle : m'.idle = m.idle

theorem Still.trans (h₁ : Still m m₁) (h₂ : Still m₁ m') : Still m m' :=
  ⟨h₂.ready.trans h₁.ready, h₂.waiting.trans h₁.waiting, h₂.idle.trans h₁.idle⟩

theorem Still.expecting_eq (h : Still m m') : m'.expecting = m.expecting := by
  rw [expecting, h.waiting, h.ready, expecting]

/-- Between two machines nothing became ready but runs and, because the scheduler came to rest, the
news of it. Nobody who is to be told is lost, and nobody waits for the scheduler to come to rest
when it is. -/
structure Readies (m m' : Machine σ) : Prop where
  fresh : ∀ j ∈ m'.ready, j ∈ m.ready ∨ j.run?.isSome ∨ (∃ w, j = .wake w) ∧ m'.atRest = true
  expecting : m'.expecting.Perm m.expecting
  clear : (m.idle = true → m.waiting = []) → m'.idle = true → m'.waiting = []

theorem Readies.of_still (h : Readies m₁ m') (hstill : Still m m₁) : Readies m m' := by
  refine ⟨?_, ?_, ?_⟩
  · exact hstill.ready ▸ h.fresh
  · exact hstill.expecting_eq ▸ h.expecting
  · exact hstill.waiting ▸ hstill.idle ▸ h.clear

theorem Still.readies (h : Still m m') : Readies m m' := by
  refine ⟨fun j hj => .inl (h.ready ▸ hj), .of_eq h.expecting_eq, fun hclear hidle => ?_⟩
  rw [h.waiting]
  exact hclear (h.idle ▸ hidle)

theorem Alike.still (h : Alike m m₁) : Still m m₁ := by
  obtain ⟨_, _, _, _, _, _, _, _, rfl, -, -⟩ := h
  exact ⟨rfl, rfl, rfl⟩

theorem Alike.atRest (h : Alike m m₁) : m₁.atRest = m.atRest := by
  obtain ⟨_, _, _, _, _, _, _, _, rfl, -, -⟩ := h
  rfl

theorem Readies.alike (h : Readies m m₁) (ha : Alike m₁ m') : Readies m m' := by
  have hstill := ha.still
  refine ⟨?_, ?_, ?_⟩
  · rw [hstill.ready, ha.atRest]
    exact h.fresh
  · rw [hstill.expecting_eq]
    exact h.expecting
  · rw [hstill.waiting, hstill.idle]
    exact h.clear

theorem atRest_refresh (m : Machine σ) : m.refresh.atRest = m.atRest := by
  obtain ⟨_, _, h⟩ := exists_refresh m
  rw [h]
  rfl

theorem refresh_of_busy (h : m.atRest = false) : m.refresh = { m with idle := false } := by
  rw [refresh, if_neg (Bool.eq_false_iff.mp h)]

theorem readies_refresh (m : Machine σ) : Readies m m.refresh := by
  cases hrest : m.atRest with
  | false =>
      rw [refresh_of_busy hrest]
      exact ⟨fun j hj => .inl hj, .refl _, nofun⟩
  | true =>
      rw [refresh, if_pos hrest]
      split
      · exact Still.readies ⟨rfl, rfl, rfl⟩
      · refine ⟨fun j hj => ?_, ?_, fun _ _ => rfl⟩
        · obtain hready | hwaiting := List.mem_append.mp hj
          · exact .inl hready
          · obtain ⟨w, -, rfl⟩ := List.mem_map.mp hwaiting
            exact .inr (.inr ⟨⟨w, rfl⟩, hrest⟩)
        · have hwoken : (m.waiting.map Job.wake).filterMap Job.waiter? = m.waiting := by
            rw [List.filterMap_map]
            exact List.filterMap_some
          rw [expecting, expecting, List.filterMap_append, hwoken, List.nil_append]
          exact List.perm_append_comm

theorem Readies.refresh (h : Readies m m₁) : Readies m m₁.refresh := by
  have hrefresh := readies_refresh m₁
  refine ⟨fun j hj => ?_, hrefresh.expecting.trans h.expecting,
    fun hclear => hrefresh.clear (h.clear hclear)⟩
  obtain hbefore | hnew := hrefresh.fresh j hj
  · rw [atRest_refresh]
    exact h.fresh j hbefore
  · exact .inr hnew

/-! ## What the operations do -/

theorem still_disarm (m : Machine σ) : Still m m.disarm := by
  rw [disarm]
  split <;> exact ⟨rfl, rfl, rfl⟩

theorem Warned.still (h : Warned m.disarm m₁) : Still m m₁ :=
  (still_disarm m).trans h.alike.still

/-- A job of a run, put behind the other ones, tells nobody anything. -/
theorem readies_of_run (hready : m'.ready = m.ready ++ [.run id])
    (hwaiting : m'.waiting = m.waiting)
    (hclear : (m.idle = true → m.waiting = []) → m'.idle = true → m'.waiting = []) :
    Readies m m' := by
  refine ⟨fun j hj => ?_, ?_, hclear⟩
  · rw [hready] at hj
    obtain hbefore | hrun := List.mem_append.mp hj
    · exact .inl hbefore
    · exact .inr (.inl (by rw [List.mem_singleton.mp hrun]; rfl))
  · rw [expecting, hready, hwaiting, List.filterMap_append]
    exact .of_eq (congrArg _ (List.append_nil _))

/-- Nobody is woken by a run that is enrolled, for the scheduler is not at rest. -/
theorem readies_enrol (m : Machine σ) :
    Readies m ((refresh { m with running := some r }).enrol r) := by
  rw [refresh_of_busy (by simp [atRest])]
  exact readies_of_run rfl rfl fun _ hidle => absurd hidle Bool.false_ne_true

theorem readies_dispatch : Readies m (m.dispatch c live r).state := by
  by_cases hd : m.disposed = true
  · rw [dispatch_of_disposed hd]
    exact readies_refresh m
  · have hd : m.disposed = false := Bool.eq_false_iff.mpr hd
    cases hrunning : m.running with
    | some current =>
        obtain ⟨m₁, halike, heq⟩ := dispatch_of_running c live r hd hrunning
        have hqueued : Still m₁ { m₁ with queued := some r } := ⟨rfl, rfl, rfl⟩
        rw [heq]
        exact (readies_refresh _).of_still (halike.still.trans hqueued)
    | none =>
        cases hlive : live || c.ownLoop with
        | true =>
            rw [dispatch_of_idle hlive hd hrunning]
            exact readies_enrol m
        | false =>
            rw [dispatch_of_stranded hlive hd hrunning]
            exact (readies_refresh _).of_still ⟨rfl, rfl, rfl⟩

theorem readies_finishRun : Readies m (m.finishRun c id) := by
  have hended : Still m (m.cease id) := ⟨rfl, rfl, rfl⟩
  rw [finishRun_eq]
  split
  · exact hended.readies.refresh
  · split
    · exact hended.readies.refresh
    · exact readies_dispatch.refresh.of_still hended

theorem GoneOn.readies (h : GoneOn c id m m') : Readies m m' := by
  obtain ⟨m₁, halike, rfl | ⟨run, rfl⟩⟩ := h
  · exact readies_finishRun.of_still halike.still
  · exact Readies.of_still (readies_of_run rfl rfl fun hclear => hclear) halike.still

theorem readies_trigger : Readies m (m.trigger c live asked).state := by
  have htriggered := triggered c live asked m
  generalize m.trigger c live asked = x at htriggered ⊢
  cases htriggered with
  | disposed | misread => exact Still.readies ⟨rfl, rfl, rfl⟩
  | refused r m₁ hd hm => exact (readies_refresh m₁).of_still hm.still
  | armed r m₁ hd hm =>
      have harm : Still m₁ (m₁.arm c r) := ⟨rfl, rfl, rfl⟩
      exact (readies_refresh _).of_still (hm.still.trans harm)
  | stranded r m₁ hd hm => exact hm.still.readies

theorem readies_triggerNow : Readies m (m.triggerNow c live asked).state := by
  have htriggered := triggeredNow c live asked m
  generalize m.triggerNow c live asked = x at htriggered ⊢
  cases htriggered with
  | disposed | misread => exact Still.readies ⟨rfl, rfl, rfl⟩
  | refused r m₁ hd hm => exact hm.alike.still.readies
  | dispatched r m₁ hd hm =>
      exact readies_dispatch.of_still (hm.alike.still.trans (still_disarm m₁))

theorem readies_dispose : Readies m (m.dispose c) := by
  obtain ⟨m₁, halike, heq⟩ := dispose_cases c m
  have hdisposed : Still m { m with disposed := true } := ⟨rfl, rfl, rfl⟩
  have hstill := (hdisposed.trans (still_disarm _)).trans halike.still
  have hqueued : Still m₁ { m₁ with queued := none } := ⟨rfl, rfl, rfl⟩
  rw [heq]
  exact (readies_refresh _).of_still (hstill.trans hqueued)

theorem readies_tell (w : Waiter) : Readies m (m.tell c w) := by
  cases w with
  | observer n => exact Still.readies ⟨rfl, rfl, rfl⟩
  | leaver => exact readies_dispose.alike (alike_world _ _)

theorem readies_perform {j : Job} (hask : ∀ w, j = .ask w → m.idle = true) :
    Readies m (m.perform c j) := by
  cases j with
  | run id =>
      rw [perform]
      split
      · exact goneOn_advanceRun.readies
      · exact Still.readies ⟨rfl, rfl, rfl⟩
  | expire id =>
      rw [perform]
      split
      · exact readies_dispatch.of_still ⟨rfl, rfl, rfl⟩
      · exact Still.readies ⟨rfl, rfl, rfl⟩
  | ask w =>
      rw [perform, if_pos (hask w rfl)]
      exact readies_tell w
  | wake w => exact readies_tell w

/-! ## Timers that are due -/

theorem mem_insertTimer {t u : Timer} {ts : List Timer} :
    u ∈ insertTimer t ts ↔ u = t ∨ u ∈ ts := by
  induction ts with
  | nil => simp [insertTimer]
  | cons v vs ih =>
      rw [insertTimer]
      split
      · simp
      · simp only [List.mem_cons, ih]
        exact or_left_comm

theorem mem_foldl_insertTimer {u : Timer} (ts us : List Timer) :
    u ∈ ts.foldl (fun ts t => insertTimer t ts) us ↔ u ∈ ts ∨ u ∈ us := by
  induction ts generalizing us with
  | nil => simp
  | cons t ts ih => rw [List.foldl_cons, ih, mem_insertTimer, List.mem_cons, or_left_comm, or_assoc]

theorem mem_dueTimers {t : Timer} : t ∈ m.dueTimers ↔ t ∈ m.timers ∧ t.due ≤ m.now := by
  rw [dueTimers, mem_foldl_insertTimer]
  simp

end Machine

namespace Moment

open Machine (Readies Still)

variable {k : Moment σ} {a : Act σ} {acts : List (Act σ)} {j : Job}

/-! ## Acts -/

/-- Whether an act begins a step of the loop. -/
def begins (k : Moment σ) : Act σ → Bool
  | .gather => k.rest.isEmpty
  | _ => false

theorem eq_gather_of_begins (h : k.begins a = true) : a = .gather ∧ k.rest = [] := by
  cases a with
  | gather => exact ⟨rfl, List.isEmpty_iff.mp h⟩
  | _ => cases h

theorem after_of_begins (h : k.begins a = true) :
    k.after c a = ⟨{ k.machine with ready := [] }, k.machine.batch⟩ := by
  obtain ⟨rfl, hrest⟩ := eq_gather_of_begins h
  rw [after, if_pos (List.isEmpty_iff.mpr hrest)]

/-- Who begins to wait by an act, for the scheduler is not at rest. -/
def joins? (k : Moment σ) : Act σ → Option Waiter
  | .job =>
    match k.rest with
    | .ask w :: _ => if k.machine.idle then none else some w
    | _ => none
  | _ => none

theorem after_of_joins {w : Waiter} (h : k.joins? a = some w) :
    a = .job ∧ k.machine.idle = false ∧ ∃ rest, k.rest = .ask w :: rest ∧
      k.after c a = ⟨{ k.machine with waiting := k.machine.waiting ++ [w] }, rest⟩ := by
  cases a with
  | job =>
      rw [joins?] at h
      split at h
      next w' rest hrest =>
        split at h
        · cases h
        next hbusy =>
          obtain rfl := Option.some.inj h
          refine ⟨rfl, Bool.eq_false_iff.mpr hbusy, rest, hrest, ?_⟩
          simp only [after, hrest]
          rw [Machine.perform, if_neg hbusy]
      next => cases h
  | _ => cases h

theorem readies_after (hbegins : k.begins a = false) (hwait : ∀ w, a ≠ .wait w)
    (hjoins : k.joins? a = none) : Readies k.machine (k.after c a).machine := by
  cases a with
  | trigger live asked => exact Machine.readies_trigger
  | triggerNow live asked => exact Machine.readies_triggerNow
  | attach live =>
      obtain halike | ⟨m₁, asked, halike, hattached⟩ := Machine.attach_alike c live k.machine
      · exact halike.still.readies
      · exact (Machine.readies_trigger.alike hattached).of_still halike.still
  | notice live n => exact Machine.readies_trigger.alike Machine.notice_alike
  | dispose => exact Machine.readies_dispose
  | wait w => exact absurd rfl (hwait w)
  | gather =>
      rw [begins] at hbegins
      rw [after, if_neg (by simp [hbegins])]
      exact Still.readies ⟨rfl, rfl, rfl⟩
  | job =>
      rw [after]
      split
      · exact Still.readies ⟨rfl, rfl, rfl⟩
      next j rest hrest =>
        refine Machine.readies_perform fun w hw => ?_
        cases hidle : k.machine.idle with
        | true => rfl
        | false => simp [joins?, hrest, hw, hidle] at hjoins
  | _ => exact Still.readies ⟨rfl, rfl, rfl⟩

/-- What is ready was ready before, unless a step has begun with it; or someone has asked for it;
or it is a run; or the scheduler has come to rest. -/
theorem ready_after (hj : j ∈ (k.after c a).machine.ready) :
    (k.begins a = false ∧ j ∈ k.machine.ready) ∨ (∃ w, j = .ask w) ∨ j.run?.isSome ∨
      (∃ w, j = .wake w) ∧ (k.after c a).machine.atRest = true := by
  cases hbegins : k.begins a with
  | true =>
      rw [after_of_begins hbegins] at hj
      cases hj
  | false =>
      by_cases hwait : ∃ w, a = .wait w
      · obtain ⟨w, rfl⟩ := hwait
        obtain hready | hask := List.mem_append.mp hj
        · exact .inl ⟨rfl, hready⟩
        · exact .inr (.inl ⟨w, List.mem_singleton.mp hask⟩)
      · cases hjoins : k.joins? a with
        | some w =>
            obtain ⟨-, -, rest, -, hafter⟩ := after_of_joins (c := c) hjoins
            rw [hafter] at hj
            exact .inl ⟨rfl, hj⟩
        | none =>
            have hreadies := readies_after (c := c) hbegins (fun w hw => hwait ⟨w, hw⟩) hjoins
            exact (hreadies.fresh j hj).imp (fun hready => ⟨rfl, hready⟩) .inr

/-- The jobs of a step that begins are what was ready, and the timers that were due. -/
theorem rest_after (hj : j ∈ (k.after c a).rest) :
    (k.begins a = false ∧ j ∈ k.rest) ∨ k.begins a = true ∧
      (j ∈ k.machine.ready ∨ ∃ t ∈ k.machine.timers, t.due ≤ k.machine.now ∧ j = .expire t.id) := by
  cases hbegins : k.begins a with
  | true =>
      rw [after_of_begins hbegins] at hj
      refine .inr ⟨rfl, (List.mem_append.mp hj).imp_right fun hexpire => ?_⟩
      obtain ⟨t, ht, rfl⟩ := List.mem_map.mp hexpire
      obtain ⟨hmem, hdue⟩ := Machine.mem_dueTimers.mp ht
      exact ⟨t, hmem, hdue, rfl⟩
  | false =>
      refine .inl ⟨rfl, ?_⟩
      cases a with
      | gather =>
          rw [begins] at hbegins
          rwa [after, if_neg (by simp [hbegins])] at hj
      | job =>
          rw [after] at hj
          split at hj
          · exact hj
          next hrest => exact hrest ▸ List.mem_cons_of_mem _ hj
      | _ => exact hj

end Moment

end TaskLine
