import TaskLine.Proofs.Schedule.Effort
import TaskLine.Proofs.Schedule.Waiting

/-!
# Coming to rest

When nothing comes from outside any more the loop has less to do after each step: the first job of a
step finds what it goes on with, so what is left to do (`load`) becomes less (`Sound.load_step_lt`).
So the loop settles, and once the time of the timer has come and it has settled again nothing is
left at all (`Sound.drain`).

Whoever asks to be told that the scheduler is at rest is told or still to be told
(`expecting_run`). At the end nobody is, so all of them were told (`finished_drain`).
-/

namespace TaskLine

variable {σ : Type} {c : Setup σ}

/-- Whether an act is one of the loop: it begins a step, carries out a job or lets time pass. -/
def Act.ticks : Act σ → Bool
  | .gather | .job | .pass _ => true
  | _ => false

/-- Who begins by an act to wait for the scheduler to come to rest. -/
def Act.waits? : Act σ → Option Waiter
  | .wait w => some w
  | _ => none

theorem Act.waits_of_ticks {a : Act σ} (h : a.ticks = true) : a.waits? = none := by
  cases a with
  | wait w => cases h
  | _ => rfl

theorem Act.available_of_ticks {a : Act σ} (h : a.ticks = true) : a.Available c := by
  cases a with
  | gather | job | pass => trivial
  | _ => cases h

/-- Nothing is under way, nothing is to come, and nobody waits. -/
structure Machine.Finished (m : Machine σ) : Prop where
  activity : m.activity = .idle
  queued : m.queued = none
  runs : m.runs = []
  timers : m.timers = []
  ready : m.ready = []
  idle : m.idle = true
  waiting : m.waiting = []

namespace Moment

open Machine (Within Finds)

variable {k : Moment σ} {a : Act σ} {acts : List (Act σ)} {m : Machine σ} {b n : Nat} {j : Job}
  {rest : List Job} {w : Waiter}

/-! ## Less and less -/

/-- A bound on the steps until nothing is left to do, for a number of lines. -/
def load (b : Nat) (k : Moment σ) : Nat :=
  Machine.total Machine.jobWork k.rest + k.machine.effort b

/-- The accounts are in order, and there are not more lines than some number. -/
structure Sound (c : Setup σ) (b : Nat) (k : Moment σ) : Prop where
  coherent : k.Coherent
  timely : k.Timely
  within : k.machine.Within c b

theorem Sound.after (hc : c.Contained) (h : Sound c b k) (ha : a.ticks = true) :
    Sound c b (k.after c a) := by
  refine ⟨h.coherent.after (Act.available_of_ticks ha), h.timely.after a, ?_⟩
  cases a with
  | gather =>
      rw [Moment.after]
      split
      · exact ⟨h.within.world, h.within.halts⟩
      · exact h.within
  | job =>
      rw [Moment.after]
      split
      · exact h.within
      · exact h.within.perform hc _
  | pass ms => exact ⟨h.within.world, h.within.halts⟩
  | _ => cases ha

theorem Sound.run (hc : c.Contained) (h : Sound c b k) (hacts : ∀ a ∈ acts, a.ticks = true) :
    Sound c b (k.run c acts) :=
  run_induction (fun _ a ha h => h.after hc (hacts a ha)) h

theorem load_cons (m : Machine σ) (j : Job) (rest : List Job) :
    load b ⟨m, j :: rest⟩ = Machine.jobWork j + load b ⟨m, rest⟩ := Nat.add_assoc ..

/-- A job that finds what it goes on with leaves less to do. -/
theorem Sound.load_job_lt (hc : c.Contained) (h : Sound c b ⟨m, j :: rest⟩) (hj : m.Finds j) :
    load b ⟨m.perform c j, rest⟩ < load b ⟨m, j :: rest⟩ := by
  have heffort := Machine.effort_perform_lt hc h.timely.leashed h.timely.narrow h.within hj
  rw [load_cons]
  simp only [load] at heffort ⊢
  omega

theorem Sound.load_job_le (hc : c.Contained) (h : Sound c b ⟨m, j :: rest⟩) :
    load b ⟨m.perform c j, rest⟩ ≤ load b ⟨m, j :: rest⟩ := by
  by_cases hj : m.Finds j
  · exact Nat.le_of_lt (h.load_job_lt hc hj)
  · rw [Machine.perform_of_not_finds hj, load_cons]
    exact Nat.le_add_left ..

/-- The jobs of a step leave no more to do. -/
theorem Sound.load_foldl_le (hc : c.Contained) (h : Sound c b ⟨m, rest⟩) :
    load b ⟨rest.foldl (Machine.perform c) m, []⟩ ≤ load b ⟨m, rest⟩ := by
  induction rest generalizing m with
  | nil => exact Nat.le_refl _
  | cons j rest ih =>
      have hone : Sound c b ⟨m.perform c j, rest⟩ := h.after (a := .job) hc rfl
      exact Nat.le_trans (ih hone) (h.load_job_le hc)

theorem load_batch (m : Machine σ) : load b ⟨{ m with ready := [] }, m.batch⟩ = load b ⟨m, []⟩ := by
  have hnothing : Machine.total Machine.jobWork ([] : List Job) = 0 := rfl
  have hexpire : Machine.total Machine.jobWork (m.dueTimers.map fun t => .expire t.id) = 0 := by
    rw [Machine.total_map]
    exact Machine.total_const 0 m.dueTimers
  simp only [load, Machine.effort, Machine.batch, Machine.total_append, hexpire, hnothing]
  omega

/-- The first job of a step finds what it goes on with. -/
theorem Sound.finds (h : Sound c b ⟨m, []⟩) (hbatch : m.batch = j :: rest) :
    Finds { m with ready := [] } j := by
  cases hready : m.ready with
  | nil =>
      rw [Machine.batch, hready, List.nil_append, List.map_eq_cons_iff] at hbatch
      obtain ⟨t, ts, hdue, rfl, -⟩ := hbatch
      have ht : t ∈ m.dueTimers := hdue ▸ List.mem_cons_self
      exact ⟨t, (Machine.mem_dueTimers.mp ht).1, rfl⟩
  | cons i ready =>
      rw [Machine.batch, hready, List.cons_append, List.cons.injEq] at hbatch
      obtain ⟨rfl, -⟩ := hbatch
      have hmem : i ∈ m.ready := hready ▸ List.mem_cons_self
      cases i with
      | run id =>
          have hjobs : m.ready.filterMap Job.run? = m.runs.map (·.id) := h.coherent.jobs
          have hid : id ∈ m.runs.map (·.id) := by
            rw [← hjobs]
            exact List.mem_filterMap.mpr ⟨_, hmem, rfl⟩
          exact List.mem_map.mp hid
      | expire id => exact absurd hmem (h.timely.ready id)
      | ask w => trivial
      | wake w => trivial

/-- A step that has something to do leaves less to do. -/
theorem Sound.load_step_lt (hc : c.Contained) (h : Sound c b ⟨m, []⟩) (hbatch : m.batch ≠ []) :
    load b ⟨m.step c, []⟩ < load b ⟨m, []⟩ := by
  have hgathered : Sound c b ⟨{ m with ready := [] }, m.batch⟩ := h.after (a := .gather) hc rfl
  have hsame := load_batch (b := b) m
  obtain ⟨j, rest, hjobs⟩ := List.exists_cons_of_ne_nil hbatch
  rw [hjobs] at hgathered hsame
  have hone : Sound c b ⟨Machine.perform c { m with ready := [] } j, rest⟩ :=
    hgathered.after (a := .job) hc rfl
  rw [← hsame, Machine.step, hjobs, List.foldl_cons]
  exact Nat.lt_of_le_of_lt (hone.load_foldl_le hc) (hgathered.load_job_lt hc (h.finds hjobs))

/-! ## Settling -/

/-- The loop comes from one moment between two steps to another one. -/
def Ticks (c : Setup σ) (k : Moment σ) (m : Machine σ) : Prop :=
  ∃ ticks, (∀ a ∈ ticks, a.ticks = true) ∧ k.run c ticks = ⟨m, []⟩

theorem ticks_step (m : Machine σ) : Ticks c ⟨m, []⟩ (m.step c) := by
  refine ⟨.gather :: List.replicate m.batch.length .job, ?_, run_step m⟩
  intro a ha
  obtain rfl | ha := List.mem_cons.mp ha
  · rfl
  · rw [List.eq_of_mem_replicate ha]
    rfl

theorem Ticks.trans {m' : Machine σ} (h : Ticks c k m) (h' : Ticks c ⟨m, []⟩ m') :
    Ticks c k m' := by
  obtain ⟨ticks, hticks, hrun⟩ := h
  obtain ⟨ticks', hticks', hrun'⟩ := h'
  refine ⟨ticks ++ ticks', List.forall_mem_append.mpr ⟨hticks, hticks'⟩, ?_⟩
  rw [run_append, hrun, hrun']

theorem Ticks.sound (hc : c.Contained) (h : Ticks c k m) (hk : Sound c b k) :
    Sound c b ⟨m, []⟩ := by
  obtain ⟨ticks, hticks, hrun⟩ := h
  exact hrun ▸ hk.run hc hticks

/-- As many steps as are reckoned with are enough to settle. -/
theorem Sound.settleWithin (hc : c.Contained) (h : Sound c b ⟨m, []⟩) (hn : load b ⟨m, []⟩ < n) :
    Ticks c ⟨m, []⟩ (m.settleWithin c n) ∧ (m.settleWithin c n).batch = [] := by
  induction n generalizing m with
  | zero => exact absurd hn (Nat.not_lt_zero _)
  | succ n ih =>
      rw [Machine.settleWithin]
      split
      next hbatch =>
        exact ⟨⟨[], List.forall_mem_nil _, rfl⟩, List.isEmpty_iff.mp hbatch⟩
      next hbatch =>
        rw [List.isEmpty_iff] at hbatch
        have hless := h.load_step_lt hc hbatch
        obtain ⟨hticks, hsettled⟩ := ih ((ticks_step m).sound hc h) (by omega)
        exact ⟨(ticks_step m).trans hticks, hsettled⟩

theorem Sound.settle (hc : c.Contained) (h : Sound c b ⟨m, []⟩) :
    Ticks c ⟨m, []⟩ (m.settle c) ∧ (m.settle c).batch = [] := by
  have hbound : m.Within c (m.lineBound c) :=
    Machine.within_lineBound fun run hrun => (h.within.halts run hrun).1
  refine Sound.settleWithin hc ⟨h.coherent, h.timely, hbound⟩ ?_
  have hload : load (m.lineBound c) ⟨m, []⟩ = m.work c :=
    (Nat.zero_add _).trans (Machine.work_eq c m).symm
  omega

/-! ## Draining -/

/-- The loop sets no timer. -/
theorem timers_after_ticks (hk : k.Timely) (ha : a.ticks = true) :
    (k.after c a).machine.timers = k.machine.timers ∨ (k.after c a).machine.timers = [] := by
  cases timing_after c a hk.narrow with
  | keep timers => exact .inl timers
  | fire t fires only timers | cancel cause timers => exact .inr timers
  | set r delays =>
      cases a with
      | gather | job | pass => cases delays
      | _ => cases ha

theorem Ticks.timers (h : Ticks c k m) (hk : k.Timely) :
    (m.timers = k.machine.timers ∨ m.timers = []) ∧ k.machine.now ≤ m.now := by
  obtain ⟨ticks, hticks, hrun⟩ := h
  have htimers : (k.run c ticks).machine.timers = k.machine.timers ∨
      (k.run c ticks).machine.timers = [] := by
    clear hrun
    induction ticks generalizing k with
    | nil => exact .inl rfl
    | cons a ticks ih =>
        obtain ⟨ha, hrest⟩ := List.forall_mem_cons.mp hticks
        have hone := timers_after_ticks (c := c) hk ha
        obtain hsame | hnone := ih (hk.after a) hrest
        · exact hone.imp hsame.trans hsame.trans
        · exact .inr hnone
  have hnow := now_run c ticks hk.narrow
  rw [hrun] at htimers hnow
  exact ⟨htimers, hnow⟩

theorem drainWithin_one {t : Timer} (honly : m.timers = [t]) :
    m.drainWithin c 1 = Machine.settle c { m with now := max m.now t.due } := by
  rw [Machine.drainWithin]
  split
  next hnone =>
    rw [honly] at hnone
    cases hnone
  next u us hsome =>
    rw [honly] at hsome
    obtain rfl := (List.cons.inj hsome).1
    rfl

/-- When the loop has settled after the time of its timer no timer is left. -/
theorem Sound.timers_settle (hc : c.Contained) (h : Sound c b ⟨m, []⟩) {t : Timer}
    (honly : m.timers = [t]) (hdue : t.due ≤ m.now) : (m.settle c).timers = [] := by
  obtain ⟨hticks, hsettled⟩ := h.settle hc
  obtain ⟨hkept, hnow⟩ := hticks.timers h.timely
  refine hkept.resolve_left fun hkept => ?_
  have ht : t ∈ (m.settle c).dueTimers := by
    refine Machine.mem_dueTimers.mpr ⟨?_, Nat.le_trans hdue hnow⟩
    rw [hkept, honly]
    exact List.mem_cons_self
  rw [List.map_eq_nil_iff.mp (List.append_eq_nil_iff.mp hsettled).2] at ht
  cases ht

theorem Sound.drain (hc : c.Contained) (h : Sound c b ⟨m, []⟩) :
    Ticks c ⟨m, []⟩ (m.drain c) ∧ Drained ⟨m.drain c, []⟩ := by
  obtain ⟨hticks, hsettled⟩ := h.settle hc
  have hsound := hticks.sound hc h
  rw [Machine.drain]
  generalize m.settle c = m at *
  cases htimers : m.timers with
  | nil => exact ⟨hticks, rfl, (List.append_eq_nil_iff.mp hsettled).1, htimers⟩
  | cons t ts =>
      have honly : m.timers = [t] := hsound.timely.narrow.timers_eq (htimers ▸ List.mem_cons_self)
      -- time passes until the timer is due
      let late : Machine σ := { m with now := max m.now t.due }
      have hpass : Ticks c ⟨m, []⟩ late := by
        have hnow : m.now + (t.due - m.now) = max m.now t.due := by omega
        refine ⟨[.pass (t.due - m.now)], by simp [Act.ticks], ?_⟩
        rw [run_cons, run_nil, Moment.after, hnow]
      have hlate := hpass.sound hc hsound
      obtain ⟨hlater, hdone⟩ := hlate.settle hc
      have hnone := hlate.timers_settle hc honly (Nat.le_max_right ..)
      rw [← htimers, honly, List.length_singleton, drainWithin_one honly]
      exact ⟨hticks.trans (hpass.trans hlater), rfl, (List.append_eq_nil_iff.mp hdone).1, hnone⟩

/-! ## Those who wait -/

/-- Who is yet to be told that the scheduler is at rest. -/
def expecting (k : Moment σ) : List Waiter := k.rest.filterMap Job.waiter? ++ k.machine.expecting

/-- Who is told in the course of a history that the scheduler is at rest. -/
def tellings (c : Setup σ) (acts : List (Act σ)) (k : Moment σ) : List Waiter :=
  yields c (fun k a => (k.told? a).toList) acts k

theorem tellings_cons (a : Act σ) (acts : List (Act σ)) (k : Moment σ) :
    k.tellings c (a :: acts) = (k.told? a).toList ++ (k.after c a).tellings c acts := rfl

/-- Those whose turn it is in a step are told, unless they begin to wait. -/
theorem rest_waiters (hbegins : k.begins a = false) (hjoins : k.joins? a = none) :
    k.rest.filterMap Job.waiter? =
      (k.told? a).toList ++ (k.after c a).rest.filterMap Job.waiter? := by
  cases a with
  | job =>
      obtain ⟨m, rest⟩ := k
      cases rest with
      | nil => rfl
      | cons j rest =>
          cases j with
          | ask w =>
              have hidle : m.idle = true := by
                cases hbusy : m.idle with
                | true => rfl
                | false => simp [joins?, hbusy] at hjoins
              have htold : (⟨m, .ask w :: rest⟩ : Moment σ).told? .job = some w := if_pos hidle
              rw [htold]
              rfl
          | _ => rfl
  | gather =>
      rw [begins] at hbegins
      rw [Moment.after, if_neg (by simp [hbegins])]
      rfl
  | _ => rfl

theorem expecting_of_begins (h : k.begins a = true) :
    (k.after c a).expecting.Perm k.expecting := by
  obtain ⟨-, hrest⟩ := eq_gather_of_begins h
  have hdue : (k.machine.dueTimers.map fun t => Job.expire t.id).filterMap Job.waiter? = [] := by
    simp [List.filterMap_eq_nil_iff, Job.waiter?]
  have hbatch : k.machine.batch.filterMap Job.waiter? =
      k.machine.ready.filterMap Job.waiter? := by
    rw [Machine.batch, List.filterMap_append, hdue, List.append_nil]
  rw [after_of_begins h, expecting, expecting, hrest, hbatch]
  simpa [Machine.expecting] using List.perm_append_comm

/-- Who asks too early is to be told as before, but waits now. -/
theorem expecting_of_joins (h : k.joins? a = some w) :
    (k.after c a).expecting.Perm k.expecting := by
  obtain ⟨-, -, rest, hrest, hafter⟩ := after_of_joins (c := c) h
  rw [hafter, expecting, expecting, hrest]
  simp only [Machine.expecting, List.filterMap_cons, Job.waiter?, List.append_assoc,
    List.cons_append, List.nil_append]
  rw [← List.append_assoc, ← List.append_assoc]
  exact List.perm_middle

/-- Nobody is lost: who is told by an act was to be told, and who is not told still is to be. -/
theorem expecting_after (c : Setup σ) (k : Moment σ) (a : Act σ) :
    ((k.told? a).toList ++ (k.after c a).expecting).Perm (k.expecting ++ a.waits?.toList) := by
  cases hwaits : a.waits? with
  | some w =>
      cases a with
      | wait w' =>
          obtain rfl := Option.some.inj hwaits
          simp [told?, after, Machine.wait, expecting, Machine.expecting, Job.waiter?]
      | _ => cases hwaits
  | none =>
      have hwait : ∀ w, a ≠ .wait w := by
        rintro w rfl
        cases hwaits
      rw [Option.toList_none, List.append_nil]
      cases hbegins : k.begins a with
      | true =>
          obtain ⟨rfl, -⟩ := eq_gather_of_begins hbegins
          exact expecting_of_begins hbegins
      | false =>
          cases hjoins : k.joins? a with
          | some w =>
              obtain ⟨rfl, hbusy, rest, hrest, -⟩ := after_of_joins (c := c) hjoins
              have htold : k.told? .job = none := by simp [told?, hrest, hbusy]
              rw [htold]
              exact expecting_of_joins hjoins
          | none =>
              have hreadies := readies_after (c := c) hbegins hwait hjoins
              rw [expecting, expecting, rest_waiters (c := c) hbegins hjoins, List.append_assoc]
              exact (hreadies.expecting.append_left _).append_left _

theorem expecting_run (k : Moment σ) (acts : List (Act σ)) :
    (k.tellings c acts ++ (k.run c acts).expecting).Perm
      (k.expecting ++ acts.filterMap Act.waits?) := by
  induction acts generalizing k with
  | nil => simp [tellings, yields]
  | cons a acts ih =>
      have hwaits : (a :: acts).filterMap Act.waits? =
          a.waits?.toList ++ acts.filterMap Act.waits? := by
        cases hwait : a.waits? <;> simp [hwait]
      rw [tellings_cons, run_cons, hwaits, List.append_assoc, ← List.append_assoc k.expecting]
      refine ((ih (k.after c a)).append_left _).trans ?_
      rw [← List.append_assoc]
      exact (expecting_after c k a).append_right _

/-- Nobody waits for the scheduler to come to rest when it is at rest. -/
def Hushed (k : Moment σ) : Prop := k.machine.idle = true → k.machine.waiting = []

theorem Hushed.after (h : k.Hushed) (a : Act σ) : (k.after c a).Hushed := by
  cases hbegins : k.begins a with
  | true =>
      rw [after_of_begins hbegins]
      exact h
  | false =>
      cases hjoins : k.joins? a with
      | some w =>
          obtain ⟨-, hbusy, rest, -, hafter⟩ := after_of_joins (c := c) hjoins
          rw [hafter]
          exact fun hidle => absurd (hbusy.symm.trans hidle) Bool.false_ne_true
      | none =>
          by_cases hwait : ∃ w, a = .wait w
          · obtain ⟨w, rfl⟩ := hwait
            exact h
          · exact (readies_after hbegins (fun w hw => hwait ⟨w, hw⟩) hjoins).clear h

theorem hushed_run (s : σ) (acts : List (Act σ)) : ((start s).run c acts).Hushed :=
  run_induction (fun _ a _ h => h.after a) fun _ => rfl

/-! ## At rest -/

/-- A step that has begun is carried out. -/
theorem ticks_rest (k : Moment σ) : Ticks c k (k.rest.foldl (Machine.perform c) k.machine) := by
  refine ⟨List.replicate k.rest.length .job, fun a ha => ?_, run_jobs k.machine k.rest⟩
  rw [List.eq_of_mem_replicate ha]
  rfl

theorem sound_run (hc : c.Contained) {s : σ} (hacts : ∀ a ∈ acts, a.Available c) :
    Sound c (((start s).run c acts).machine.lineBound c) ((start s).run c acts) :=
  ⟨coherent_run hacts, timely_run s acts, Machine.within_lineBound (fits_run hc hacts)⟩

/-- When nothing is left to do and no timer is left the scheduler is at rest. -/
theorem Coherent.finished (h : k.Coherent) (hhushed : k.Hushed) (hdrained : k.Drained) :
    k.machine.Finished := by
  have hruns : k.machine.runs = [] := h.runs_of_drained hdrained
  have harmed : k.machine.armed = none := (eq_none_iff_of_map h.armed).mpr hdrained.timers
  have hrunning : k.machine.running = none := (eq_none_iff_of_map h.running).mpr hruns
  have hqueued : k.machine.queued = none := by
    by_contra hq
    have hsome := h.queued (Option.isSome_iff_ne_none.mpr hq)
    rw [hrunning] at hsome
    cases hsome
  have hidle : k.machine.idle = true := by
    rw [h.idle, harmed, hrunning, hqueued]
    rfl
  refine ⟨?_, hqueued, hruns, hdrained.timers, hdrained.ready, hidle, hhushed hidle⟩
  rw [Machine.activity, hrunning, harmed]
  rfl

/-- Whatever has happened, the loop comes to its end when it is drained. Then the scheduler is at
rest, and everyone who has waited for that has been told, as often as they waited. -/
theorem finished_drain (hc : c.Contained) {s : σ} (hacts : ∀ a ∈ acts, a.Available c) :
    let k := (start s).run c acts
    let m := (k.rest.foldl (Machine.perform c) k.machine).drain c
    ∃ ticks, (∀ a ∈ ticks, a.ticks = true) ∧ k.run c ticks = ⟨m, []⟩ ∧ m.Finished ∧
      ((start s).tellings c (acts ++ ticks)).Perm (acts.filterMap Act.waits?) := by
  intro k m
  have hk : Sound c _ k := sound_run hc hacts
  have hstep := (ticks_rest k).sound hc hk
  obtain ⟨hreaches, hdrained⟩ := hstep.drain hc
  obtain ⟨ticks, hticks, hrun⟩ := (ticks_rest k).trans hreaches
  have hreached : (start s).run c (acts ++ ticks) = ⟨m, []⟩ := (run_append acts ticks _).trans hrun
  have hhushed : Hushed ⟨m, []⟩ := hreached ▸ hushed_run s (acts ++ ticks)
  have hfinished : m.Finished :=
    (hreaches.sound hc hstep).coherent.finished hhushed hdrained
  refine ⟨ticks, hticks, hrun, hfinished, ?_⟩
  have hall := expecting_run (c := c) (start s) (acts ++ ticks)
  have hnone : Moment.expecting ⟨m, []⟩ = [] := by
    rw [expecting, Machine.expecting, hfinished.ready, hfinished.waiting]
    rfl
  have hsilent : ticks.filterMap Act.waits? = [] :=
    List.filterMap_eq_nil_iff.mpr fun a ha => Act.waits_of_ticks (hticks a ha)
  rw [hreached, hnone, List.append_nil, List.filterMap_append, hsilent, List.append_nil] at hall
  exact hall

end Moment

/-! ## Documents -/

namespace Desk

/-- Whatever has happened to a document and its scheduler, the loop comes to its end when it is
drained, and then the scheduler is at rest. -/
theorem drain_atRest (l : Layout) {s : Desk} {acts : List (Act Desk)}
    (hacts : ∀ a ∈ acts, a.Available (setup l)) :
    let k := (Moment.start s).run (setup l) acts
    let m := (k.rest.foldl (Machine.perform (setup l)) k.machine).drain (setup l)
    ∃ ticks, (∀ a ∈ ticks, a.ticks = true) ∧ k.run (setup l) ticks = ⟨m, []⟩ ∧ m.Finished ∧
      ((Moment.start s).tellings (setup l) (acts ++ ticks)).Perm (acts.filterMap Act.waits?) :=
  Moment.finished_drain (contained_setup l) hacts

/-- While a run pauses, a request is queued and a timer is armed, someone begins to wait. -/
def awaited : List (Act Desk) := busy ++ [.wait (.observer 0)]

theorem drain_atRest_awaited :
    let k := (Moment.start twoLines).run (setup pausing) awaited
    (k.machine.runs.length = 1 ∧ k.machine.queued = some .oneLine ∧ k.machine.timers.length = 1) ∧
      ∃ ticks, (∀ a ∈ ticks, a.ticks = true) ∧ (k.run (setup pausing) ticks).machine.Finished ∧
        (Moment.start twoLines).tellings (setup pausing) (awaited ++ ticks) = [.observer 0] := by
  intro k
  have hacts : ∀ a ∈ awaited, a.Available (setup pausing) := by
    simp [awaited, busy, Act.Available]
  have hwaits : awaited.filterMap Act.waits? = [.observer 0] := rfl
  have hbusy : k.machine.runs.length = 1 ∧ k.machine.queued = some .oneLine ∧
      k.machine.timers.length = 1 := by decide +kernel
  obtain ⟨ticks, hticks, hrun, hfinished, htold⟩ := drain_atRest pausing (s := twoLines) hacts
  rw [hwaits] at htold
  have hdone : (k.run (setup pausing) ticks).machine.Finished := by
    rw [hrun]
    exact hfinished
  exact ⟨hbusy, ticks, hticks, hdone, List.perm_singleton.mp htold⟩

end Desk

end TaskLine
