import TaskLine.Proofs.Schedule.FollowUp
import TaskLine.Proofs.Schedule.Signals

/-!
# Many requests, one run

Every run is for a request that was dispatched, and the runs come in the order of their requests
(`enrolments_sublist`). A request that is dispatched while a run is in flight has to wait until
that run is over, and only the last one is still there then. So when the run is over, however it
came to its end, one more run is enrolled if anything was dispatched in the meantime, and none
otherwise. It is for the request that was dispatched last, and the ones before it are never run
(`coalesced`).
-/

namespace TaskLine

variable {σ : Type} {c : Setup σ}

namespace Moment

variable {k : Moment σ} {a : Act σ} {acts : List (Act σ)} {id : Nat} {t : Run}

/-! ## What is dispatched and what is enrolled -/

/-- The runs that an act enrols. -/
def enrolled (c : Setup σ) (k : Moment σ) (a : Act σ) : List Run :=
  (k.after c a).machine.runs.filter fun t => !k.inFlight t.id

/-- What each act of a history yields, in the order of the acts. -/
def yields {α : Type} (c : Setup σ) (f : Moment σ → Act σ → List α) :
    List (Act σ) → Moment σ → List α
  | [], _ => []
  | a :: acts, k => f k a ++ yields c f acts (k.after c a)

theorem yields_concat {α : Type} (f : Moment σ → Act σ → List α) (acts : List (Act σ))
    (a : Act σ) (k : Moment σ) :
    yields c f (acts ++ [a]) k = yields c f acts k ++ f (k.run c acts) a := by
  induction acts generalizing k with
  | nil => exact List.append_nil _
  | cons b acts ih =>
      rw [List.cons_append, yields, yields, ih, List.append_assoc]
      rfl

/-- The runs that are enrolled in the course of a history. -/
def enrolments (c : Setup σ) (acts : List (Act σ)) (k : Moment σ) : List Run :=
  yields c (enrolled c) acts k

/-- The requests that are dispatched in the course of a history. -/
def dispatches (c : Setup σ) (acts : List (Act σ)) (k : Moment σ) : List Request :=
  yields c (fun k a => (k.dispatched? c a).toList) acts k

theorem enrolments_cons (a : Act σ) (acts : List (Act σ)) (k : Moment σ) :
    enrolments c (a :: acts) k = k.enrolled c a ++ enrolments c acts (k.after c a) := rfl

theorem dispatches_cons (a : Act σ) (acts : List (Act σ)) (k : Moment σ) :
    dispatches c (a :: acts) k = (k.dispatched? c a).toList ++ dispatches c acts (k.after c a) :=
  rfl

/-- Where the runs stay the same none is enrolled. -/
theorem enrolled_eq_nil (hids : (k.after c a).machine.runs.map (·.id) = k.machine.runs.map (·.id)) :
    k.enrolled c a = [] := by
  refine List.filter_eq_nil_iff.mpr fun t ht => ?_
  have hflight : k.inFlight t.id = true := by
    rw [inFlight_iff, ← hids]
    exact List.mem_map_of_mem ht
  simp [hflight]

/-- Runs that are new are the ones that are enrolled. -/
theorem Coherent.enrolled_eq_runs {rs : List Request} (h : k.Coherent)
    (hruns : (k.after c a).machine.runs =
      rs.map fun r => { id := k.machine.nextId, request := r }) :
    k.enrolled c a = (k.after c a).machine.runs ∧ (k.enrolled c a).map (·.request) = rs := by
  have hall : k.enrolled c a = (k.after c a).machine.runs := by
    refine List.filter_eq_self.mpr fun t ht => ?_
    rw [hruns, List.mem_map] at ht
    obtain ⟨_, -, rfl⟩ := ht
    simp [h.not_inFlight_nextId]
  refine ⟨hall, ?_⟩
  rw [hall, hruns, List.map_map]
  exact List.map_id _

/-- An act enrols no run, and what it dispatches is queued; or it enrols a run for the request
whose turn it is, and nothing is queued. -/
theorem Coherent.enrolled_cases (h : k.Coherent) (ha : a.Available c)
    (hd : (k.after c a).machine.disposed = false) :
    (k.enrolled c a = [] ∧
        (k.after c a).machine.queued = (k.dispatched? c a).or k.machine.queued) ∨
      ((k.after c a).machine.queued = none ∧
        (k.enrolled c a).map (·.request) =
          (k.machine.queued.or (k.dispatched? c a)).toList) := by
  obtain ⟨hids, hqueued⟩ | ⟨-, hqueued, hruns⟩ := h.queues_or_enrols ha hd
  · exact .inl ⟨enrolled_eq_nil hids, hqueued⟩
  · exact .inr ⟨hqueued, (h.enrolled_eq_runs hruns).2⟩

/-- Nothing is queued when a run is enrolled. -/
theorem Coherent.queued_of_enrolled (h : k.Coherent) (ha : a.Available c)
    (hd : (k.after c a).machine.disposed = false) (ht : t ∈ k.enrolled c a) :
    (k.after c a).machine.queued = none := by
  obtain ⟨hnone, -⟩ | ⟨hqueued, -⟩ := h.enrolled_cases ha hd
  · rw [hnone] at ht
    cases ht
  · exact hqueued

/-- The act that ends a run enrols what is queued. -/
theorem Coherent.enrolled_of_over (h : k.Coherent) (ha : a.Available c)
    (hd : (k.after c a).machine.disposed = false) (hflight : k.inFlight id = true)
    (hover : (k.after c a).inFlight id = false) :
    k.dispatched? c a = none ∧ (k.after c a).machine.queued = none ∧
      k.enrolled c a = (k.after c a).machine.runs ∧
      (k.enrolled c a).map (·.request) = k.machine.queued.toList := by
  obtain ⟨hflies, -⟩ | ⟨-, hnothing, hqueued, hruns⟩ := h.follow ha hd hflight
  · rw [hover] at hflies
    cases hflies
  · exact ⟨hnothing, hqueued, h.enrolled_eq_runs hruns⟩

/-- What an act enrols and leaves in the queue was in the queue or was dispatched. -/
theorem Coherent.enrolled_sublist (h : k.Coherent) (ha : a.Available c)
    (hd : (k.after c a).machine.disposed = false) :
    ((k.enrolled c a).map (·.request) ++ (k.after c a).machine.queued.toList).Sublist
      (k.machine.queued.toList ++ (k.dispatched? c a).toList) := by
  obtain ⟨henrolled, hqueued⟩ | ⟨hqueued, henrolled⟩ := h.enrolled_cases ha hd <;>
    rw [henrolled, hqueued]
  · cases k.dispatched? c a with
    | none => simp
    | some r => exact List.sublist_append_right _ _
  · cases k.machine.queued with
    | none => simp
    | some q => simp

/-! ## Histories -/

/-- Each run is for a request of its own, which was in the queue at first or was dispatched, and
the runs come in the order of these requests. -/
theorem Coherent.enrolments_sublist (h : k.Coherent) (hacts : ∀ a ∈ acts, a.Available c)
    (hd : (k.run c acts).machine.disposed = false) :
    ((k.enrolments c acts).map (·.request)).Sublist
      (k.machine.queued.toList ++ k.dispatches c acts) := by
  induction acts generalizing k with
  | nil => exact List.nil_sublist _
  | cons a acts ih =>
      have ha := hacts a List.mem_cons_self
      have hone := h.enrolled_sublist ha (not_disposed_of_run acts hd)
      have hrest := ih (h.after ha) (fun b hb => hacts b (List.mem_cons_of_mem a hb)) hd
      rw [enrolments_cons, dispatches_cons, List.map_append, ← List.append_assoc]
      refine (hrest.append_left _).trans ?_
      rw [← List.append_assoc]
      exact hone.append_right _

theorem inFlight_of_run (h : k.machine.Leashed) (hid : id < k.machine.nextId)
    (hflight : (k.run c acts).inFlight id = true) : k.inFlight id = true := by
  induction acts generalizing k with
  | nil => exact hflight
  | cons a acts ih =>
      have hshift := shift_after c a h
      have hafter := ih (h.after_shift hshift) (Nat.lt_of_lt_of_le hid hshift.nextId_le) hflight
      obtain ⟨t, ht, rfl⟩ := List.mem_map.mp (inFlight_iff.mp hafter)
      obtain ⟨u, hu, hut, -⟩ := hshift.exists_before ht hid
      exact inFlight_iff.mpr (List.mem_map.mpr ⟨u, hu, hut⟩)

/-- As long as a run is in flight no other one is enrolled, and the request that was dispatched
last is queued. -/
theorem Coherent.queued_of_inFlight (h : k.Coherent) (hleashed : k.machine.Leashed)
    (hacts : ∀ a ∈ acts, a.Available c) (hd : (k.run c acts).machine.disposed = false)
    (hbefore : k.inFlight id = true) (hflight : (k.run c acts).inFlight id = true) :
    k.enrolments c acts = [] ∧
      (k.run c acts).machine.queued = (k.dispatches c acts).getLast?.or k.machine.queued := by
  induction acts generalizing k with
  | nil => exact ⟨rfl, rfl⟩
  | cons a acts ih =>
      have ha := hacts a List.mem_cons_self
      have hshift := shift_after c a hleashed
      have hleashed := hleashed.after_shift hshift
      have hid : id < (k.after c a).machine.nextId := by
        obtain ⟨t, ht, rfl⟩ := List.mem_map.mp (inFlight_iff.mp hbefore)
        exact Nat.lt_of_lt_of_le (h.fresh t ht) hshift.nextId_le
      have hafter := inFlight_of_run hleashed hid hflight
      obtain ⟨-, hids, hqueued⟩ | ⟨hover, -⟩ := h.follow ha (not_disposed_of_run acts hd) hbefore
      · obtain ⟨hnone, hlast⟩ := ih (h.after ha) hleashed
          (fun b hb => hacts b (List.mem_cons_of_mem a hb)) hd hafter hflight
        have hone : (k.dispatched? c a).toList.getLast? = k.dispatched? c a := by
          cases k.dispatched? c a <;> rfl
        rw [enrolments_cons, dispatches_cons, enrolled_eq_nil hids, hnone, run_cons, hlast,
          hqueued, List.getLast?_append, hone, Option.or_assoc]
        exact ⟨rfl, rfl⟩
      · rw [hafter] at hover
        cases hover

/-- When a run is over, however it came to its end, a run is enrolled for the request that was
dispatched last while it was in flight, and no other one; if none was dispatched no run is
enrolled. None of the requests before the last one is ever run. -/
theorem coalesced {s : σ} {before acts : List (Act σ)} {b : Act σ}
    (hacts : ∀ e ∈ before ++ b :: (acts ++ [a]), e.Available c)
    (hd : ((start s).run c (before ++ b :: (acts ++ [a]))).machine.disposed = false)
    (ht : t ∈ ((start s).run c before).enrolled c b)
    (hflight : ((start s).run c (before ++ b :: acts)).inFlight t.id = true)
    (hover : ((start s).run c (before ++ b :: (acts ++ [a]))).inFlight t.id = false) :
    let k := ((start s).run c before).after c b
    let k' := k.run c (acts ++ [a])
    k.enrolments c acts = [] ∧
      (k.enrolments c (acts ++ [a])).map (·.request) =
        (k.dispatches c (acts ++ [a])).getLast?.toList ∧
      k'.machine.runs = k.enrolments c (acts ++ [a]) ∧
      (k'.rest ++ k'.machine.ready).filterMap Job.run? = k'.machine.runs.map (·.id) ∧
      ∀ later, (∀ e ∈ later, e.Available c) → (k'.run c later).machine.disposed = false →
        ((k'.enrolments c later).map (·.request)).Sublist (k'.dispatches c later) := by
  intro k k'
  have hstart : ((start s).run c before).Coherent :=
    coherent_run fun e he => hacts e (List.mem_append_left _ he)
  have hb : b.Available c := hacts b (by simp)
  have ha : a.Available c := hacts a (by simp)
  have hmiddle : ∀ e ∈ acts, e.Available c := fun e he => hacts e (by simp [he])
  have hk : k.Coherent := hstart.after hb
  have hreached : ((start s).run c before).machine.Leashed := leashed_run (leashed_start s)
  have hleashed : k.machine.Leashed := hreached.after_shift (shift_after c b hreached)
  rw [run_append] at hd hflight hover
  rw [run_cons, run_append] at hd hover
  rw [run_cons] at hflight
  have hd' : (k.run c acts).machine.disposed = false := not_disposed_of_run [a] hd
  -- the run is enrolled with an empty queue, which then holds what was dispatched last
  have hempty := hstart.queued_of_enrolled hb (not_disposed_of_run acts hd') ht
  have hbefore : k.inFlight t.id = true :=
    inFlight_iff.mpr (List.mem_map_of_mem (List.mem_filter.mp ht).1)
  obtain ⟨hnone, hlast⟩ := hk.queued_of_inFlight hleashed hmiddle hd' hbefore hflight
  rw [hempty, Option.or_none] at hlast
  -- until the run is over and that request has its turn
  have hmoment : (k.run c acts).Coherent :=
    run_induction (fun _ e he h => h.after (hmiddle e he)) hk
  obtain ⟨hnothing, hqueued, hall, hrequests⟩ := hmoment.enrolled_of_over ha hd hflight hover
  have hrun : k' = (k.run c acts).after c a := run_append acts [a] k
  have hk' : k'.Coherent := hrun ▸ hmoment.after ha
  have henrolled : k.enrolments c (acts ++ [a]) = (k.run c acts).enrolled c a := by
    exact (yields_concat _ acts a k).trans (congrArg (· ++ _) hnone)
  have hasked : k.dispatches c (acts ++ [a]) = k.dispatches c acts := by
    refine (yields_concat _ acts a k).trans ?_
    rw [hnothing, Option.toList_none, List.append_nil]
    rfl
  refine ⟨hnone, ?_, ?_, hk'.jobs, fun later hle hd => ?_⟩
  · rw [henrolled, hrequests, hlast, hasked]
  · rw [henrolled, hall, hrun]
  · have hsublist := hk'.enrolments_sublist hle hd
    rw [hrun, hqueued] at hsublist
    rwa [hrun]

end Moment

/-! ## A run that is waited for -/

namespace Desk

/-- While a run for the file is under way the file is asked for once more, and then a line. -/
def askedTwice : List (Act Desk) :=
  [.gather, .job, .triggerNow true (.ok .wholeFile), .triggerNow true (.ok .oneLine), .gather]

theorem coalesced_askedTwice :
    ∃ t : Run, t.request = .wholeFile ∧
      let k := (Moment.start twoLines).after (setup pausing) (.triggerNow true (.ok .wholeFile))
      k.dispatches (setup pausing) (askedTwice ++ [.job]) = [.wholeFile, .oneLine] ∧
        (k.enrolments (setup pausing) (askedTwice ++ [.job])).map (·.request) = [.oneLine] ∧
        ((k.run (setup pausing) (askedTwice ++ [.job])).inFlight t.id) = false := by
  have hacts : ∀ e ∈ [] ++ Act.triggerNow true (.ok .wholeFile) :: (askedTwice ++ [.job]),
      e.Available (setup pausing) := by
    simp [askedTwice, Act.Available]
  have hasked : ((Moment.start twoLines).after (setup pausing)
      (.triggerNow true (.ok .wholeFile))).dispatches (setup pausing) (askedTwice ++ [.job]) =
        [.wholeFile, .oneLine] := by decide +kernel
  have hlast := (Moment.coalesced (s := twoLines) (t := { id := 0, request := .wholeFile }) hacts
    (by decide +kernel) (List.mem_singleton_self _) (by decide +kernel) (by decide +kernel)).2.1
  refine ⟨{ id := 0, request := .wholeFile }, rfl, hasked, ?_, by decide +kernel⟩
  exact hlast.trans (congrArg (fun rs => rs.getLast?.toList) hasked)

end Desk

end TaskLine
