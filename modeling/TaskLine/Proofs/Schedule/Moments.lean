import TaskLine.Proofs.Schedule.Effects

/-!
# Histories of the scheduler

The scheduler does one thing after the other: it carries out a job, or it is called from
outside. A *moment* is what there is between two of these, namely the machine and the jobs that
the present step of the loop has still to carry out. What comes next is an *act*. Between any
two jobs requests may come in, time may pass, and the world may change under the scheduler:
lines are edited, switches are set.

A history is a list of acts (`Moment.run`). A step of the loop is a history too
(`Moment.run_step`), so what holds after every history holds after, and within, every step.
-/

namespace TaskLine

/-- Something that happens to the scheduler at one go. -/
inductive Act (σ : Type) where
  | trigger (live : Bool) (asked : Except RequestFault Request)
  | triggerNow (live : Bool) (asked : Except RequestFault Request)
  | attach (live : Bool)
  | notice (live : Bool) (n : Notice)
  | dispose
  | wait (w : Waiter)
  | change (f : σ → σ)
  | pass (ms : Nat)
  /-- The loop begins a step, unless it is still in one. -/
  | gather
  /-- The next job of the step is carried out. -/
  | job

/-- What there is between two acts. -/
structure Moment (σ : Type) where
  machine : Machine σ
  /-- The jobs that the present step has still to carry out. -/
  rest : List Job := []

variable {σ : Type} {c : Setup σ}

/-- Whether there is a loop to schedule on, for an act that needs one. -/
def Act.Available (c : Setup σ) : Act σ → Prop
  | .trigger live _ | .triggerNow live _ | .attach live | .notice live _ =>
    (live || c.ownLoop) = true
  | .dispose | .wait _ | .change _ | .pass _ | .gather | .job => True

namespace Moment

/-- A scheduler that has done nothing yet. -/
def start (s : σ) : Moment σ := { machine := { world := s } }

/-- The moment after an act. -/
def after (c : Setup σ) (k : Moment σ) : Act σ → Moment σ
  | .trigger live asked => { k with machine := (k.machine.trigger c live asked).state }
  | .triggerNow live asked => { k with machine := (k.machine.triggerNow c live asked).state }
  | .attach live => { k with machine := k.machine.attach c live }
  | .notice live n => { k with machine := k.machine.notice c live n }
  | .dispose => { k with machine := k.machine.dispose c }
  | .wait w => { k with machine := k.machine.wait w }
  | .change f => { k with machine := { k.machine with world := f k.machine.world } }
  | .pass ms => { k with machine := { k.machine with now := k.machine.now + ms } }
  | .gather =>
    if k.rest.isEmpty then ⟨{ k.machine with ready := [] }, k.machine.batch⟩ else k
  | .job =>
    match k.rest with
    | [] => k
    | j :: rest => ⟨k.machine.perform c j, rest⟩

/-- The moment after a history. -/
def run (c : Setup σ) (acts : List (Act σ)) (k : Moment σ) : Moment σ := acts.foldl (after c) k

@[simp] theorem run_nil (k : Moment σ) : k.run c [] = k := rfl

@[simp] theorem run_cons (a : Act σ) (acts : List (Act σ)) (k : Moment σ) :
    k.run c (a :: acts) = (k.after c a).run c acts := rfl

theorem run_append (acts acts' : List (Act σ)) (k : Moment σ) :
    k.run c (acts ++ acts') = (k.run c acts).run c acts' := List.foldl_append

theorem run_concat (acts : List (Act σ)) (a : Act σ) (k : Moment σ) :
    k.run c (acts ++ [a]) = (k.run c acts).after c a := run_append acts [a] k

/-- What every act keeps every history keeps. -/
theorem run_induction {P : Moment σ → Prop} {acts : List (Act σ)} {k : Moment σ}
    (hafter : ∀ k a, a ∈ acts → P k → P (k.after c a)) (h : P k) : P (k.run c acts) := by
  induction acts generalizing k with
  | nil => exact h
  | cons a acts ih =>
      exact ih (fun k b hb => hafter k b (List.mem_cons_of_mem a hb))
        (hafter k a List.mem_cons_self h)

theorem run_jobs (m : Machine σ) (rest : List Job) :
    (⟨m, rest⟩ : Moment σ).run c (List.replicate rest.length .job) =
      ⟨rest.foldl (Machine.perform c) m, []⟩ := by
  induction rest generalizing m with
  | nil => rfl
  | cons j rest ih => exact ih (m.perform c j)

/-- A step of the loop gathers what there is to do, and does it job by job. -/
theorem run_step (m : Machine σ) :
    (⟨m, []⟩ : Moment σ).run c (.gather :: List.replicate m.batch.length .job) =
      ⟨m.step c, []⟩ :=
  run_jobs _ m.batch

end Moment

end TaskLine
