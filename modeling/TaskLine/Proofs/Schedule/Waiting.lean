import Mathlib.Data.List.Induction
import TaskLine.Proofs.Schedule.Admission
import TaskLine.Proofs.Schedule.Readiness

/-!
# Waiting for rest

Whoever waits for the scheduler to come to rest is woken when it does, and gets to know that in the
next step. What is ready before that goes first, and requests may come in. So when one who waits is
told, the scheduler *was* at rest, at most one step before, and what is armed, run or queued by then
was let through since (`told_sinceRest`). That it still is at rest is not to be had
(`told_scheduled`): nobody looks again.
-/

namespace TaskLine

variable {σ : Type} {c : Setup σ}

namespace Moment

open Machine (Narrow Leashed)

variable {k : Moment σ} {a : Act σ} {acts : List (Act σ)} {w : Waiter} {n : Nat}

/-- Who gets to know by an act that the scheduler is at rest. -/
def told? (k : Moment σ) : Act σ → Option Waiter
  | .job =>
    match k.rest with
    | .wake w :: _ => some w
    | .ask w :: _ => if k.machine.idle then some w else none
    | _ => none
  | _ => none

/-- How many steps of the loop begin in the course of a history. -/
def begun (c : Setup σ) (acts : List (Act σ)) (k : Moment σ) : Nat :=
  (yields c (fun k a => if k.begins a then [()] else []) acts k).length

theorem begun_concat (acts : List (Act σ)) (a : Act σ) (k : Moment σ) :
    k.begun c (acts ++ [a]) = k.begun c acts + if (k.run c acts).begins a then 1 else 0 := by
  rw [begun, yields_concat, List.length_append, begun]
  split <;> rfl

/-- The scheduler was at rest in the course of a history, and at most some number of steps have
begun since. -/
def RestedWithin (c : Setup σ) (n : Nat) (acts : List (Act σ)) (k : Moment σ) : Prop :=
  ∃ acts₁ acts₂, acts = acts₁ ++ acts₂ ∧ (k.run c acts₁).machine.atRest = true ∧
    (k.run c acts₁).begun c acts₂ ≤ n

theorem RestedWithin.concat (h : RestedWithin c n acts k) (a : Act σ) :
    RestedWithin c (n + if (k.run c acts).begins a then 1 else 0) (acts ++ [a]) k := by
  obtain ⟨acts₁, acts₂, rfl, hrest, hbegun⟩ := h
  refine ⟨acts₁, acts₂ ++ [a], List.append_assoc .., hrest, ?_⟩
  rw [begun_concat, ← run_append]
  exact Nat.add_le_add_right hbegun _

/-- The scheduler was at rest when it woke someone: no step has begun since then, and one when it is
their turn. -/
theorem restedWithin_of_woken (s : σ) (acts : List (Act σ)) (w : Waiter) :
    (.wake w ∈ ((start s).run c acts).machine.ready → RestedWithin c 0 acts (start s)) ∧
      (.wake w ∈ ((start s).run c acts).rest → RestedWithin c 1 acts (start s)) := by
  induction acts using List.reverseRecOn with
  | nil => exact ⟨nofun, nofun⟩
  | append_singleton acts a ih =>
      obtain ⟨hready, hrest⟩ := ih
      have hrun : (start s).run c (acts ++ [a]) = ((start s).run c acts).after c a := run_concat ..
      constructor
      · intro hw
        rw [hrun] at hw
        obtain ⟨hbegins, hbefore⟩ | ⟨w', hask⟩ | hone | ⟨-, hatRest⟩ := ready_after hw
        · have hstill := (hready hbefore).concat a
          rwa [hbegins] at hstill
        · cases hask
        · cases hone
        · exact ⟨acts ++ [a], [], (List.append_nil _).symm, hrun ▸ hatRest, Nat.le_refl 0⟩
      · intro hw
        rw [hrun] at hw
        obtain ⟨hbegins, hbefore⟩ | ⟨hbegins, hbefore | ⟨t, -, -, hexpire⟩⟩ := rest_after hw
        · have hstill := (hrest hbefore).concat a
          rwa [hbegins] at hstill
        · have hturn := (hready hbefore).concat a
          rwa [hbegins] at hturn
        · cases hexpire

/-- What is armed, run or queued. -/
def outstanding (k : Moment σ) : List Request := k.machine.pending fun _ => true

/-- What waits after an act was waiting before, or is let through. -/
theorem outstanding_after (hl : k.machine.Leashed) (h : k.machine.Narrow) :
    ((k.after c a).outstanding).Sublist (k.outstanding ++ (k.admitted? c a).toList) := by
  cases hgoes : k.goesOn? a with
  | none => exact pending_after h hgoes
  | some t =>
      obtain ⟨-, honly, -⟩ := exists_of_goesOn (c := c) hl hgoes
      have hbefore : k.outstanding =
          t.request :: (k.machine.queued.toList ++ k.machine.timers.map (·.request)) := by
        simp [outstanding, Machine.pending, Machine.inLine, honly]
      refine List.Sublist.trans ?_ (List.sublist_append_left _ _)
      rw [hbefore]
      obtain hbehind | ⟨run, -, heq⟩ := pending_goesOn (c := c) hl h hgoes (p := fun _ => true)
      · exact hbehind.cons _
      · exact heq ▸ List.Sublist.refl _

theorem outstanding_run (hl : k.machine.Leashed) (h : k.machine.Narrow) (acts : List (Act σ)) :
    ((k.run c acts).outstanding).Sublist (k.outstanding ++ k.admissions c acts) := by
  induction acts generalizing k with
  | nil => exact (List.append_nil k.outstanding).symm ▸ List.Sublist.refl _
  | cons a acts ih =>
      have hrest := ih (hl.after_shift (shift_after c a hl)) (narrow_after (c := c) (a := a) h)
      rw [admissions_cons, ← List.append_assoc]
      exact hrest.trans ((outstanding_after hl h).append_right _)

/-- The scheduler is at rest exactly if nothing is outstanding. -/
theorem Coherent.atRest_iff (h : k.Coherent) :
    k.machine.atRest = true ↔ k.outstanding = [] := by
  have hruns := eq_none_iff_of_map h.running
  have htimers := eq_none_iff_of_map h.armed
  have hall : k.machine.runs.filter (fun _ => true) = k.machine.runs := by simp
  rw [outstanding, Machine.pending, Machine.inLine, hall]
  simp [Machine.atRest, hruns, htimers, and_comm, and_assoc]

/-- Who is told that the scheduler is at rest learns that it was: not more than one step has begun
since then. What is outstanding by now was let through in the meantime. -/
theorem told_sinceRest {s : σ} (hacts : ∀ b ∈ acts, b.Available c)
    (htold : ((start s).run c acts).told? a = some w) :
    let k := (start s).run c acts
    (k.machine.atRest = true ↔ k.outstanding = []) ∧
      ∃ acts₁ acts₂, acts = acts₁ ++ acts₂ ∧
        let k₁ := (start s).run c acts₁
        k₁.machine.atRest = true ∧ k₁.begun c acts₂ ≤ 1 ∧
          k.outstanding.Sublist (k₁.admissions c acts₂) := by
  intro k
  have hk : k.Coherent := coherent_run hacts
  have hrested : RestedWithin c 1 acts (start s) := by
    cases a with
    | job =>
        rw [told?] at htold
        split at htold
        next w' rest hrest =>
          exact (restedWithin_of_woken s acts w').2 (hrest ▸ List.mem_cons_self)
        next w' rest hrest =>
          split at htold
          next hidle =>
            exact ⟨acts, [], (List.append_nil _).symm, hk.idle.symm.trans hidle, Nat.zero_le 1⟩
          next => cases htold
        next => cases htold
    | _ => cases htold
  obtain ⟨acts₁, acts₂, hsplit, hrest, hbegun⟩ := hrested
  refine ⟨hk.atRest_iff, acts₁, acts₂, hsplit, hrest, hbegun, ?_⟩
  have hbefore : ((start s).run c acts₁).Coherent :=
    coherent_run fun b hb => hacts b (hsplit ▸ List.mem_append_left _ hb)
  have hnarrow : ((start s).run c acts₁).machine.Narrow := narrow_run (narrow_start s)
  have hsince := outstanding_run (c := c) (leashed_run (leashed_start s)) hnarrow acts₂
  rw [hbefore.atRest_iff.mp hrest, List.nil_append, ← run_append, ← hsplit] at hsince
  exact hsince

end Moment

/-! ## A request that comes before the news -/

namespace Desk

/-- Someone waits for the end of a run. When it is over, and before they are told, the file is asked
for. -/
def askedMeanwhile : List (Act Desk) :=
  [.wait (.observer 0), .triggerNow true (.ok .oneLine), .gather, .job, .job,
    .trigger true (.ok .wholeFile), .gather]

theorem told_sinceRest_askedMeanwhile :
    let k := (Moment.start twoLines).run (setup pausing) askedMeanwhile
    k.outstanding = [.wholeFile] ∧
      ∃ acts₁ acts₂, askedMeanwhile = acts₁ ++ acts₂ ∧
        let k₁ := (Moment.start twoLines).run (setup pausing) acts₁
        k₁.machine.atRest = true ∧ .wholeFile ∈ k₁.admissions (setup pausing) acts₂ := by
  intro k
  have hacts : ∀ b ∈ askedMeanwhile, b.Available (setup pausing) := by
    simp [askedMeanwhile, Act.Available]
  have htold : k.told? .job = some (.observer 0) := by decide +kernel
  have hout : k.outstanding = [.wholeFile] := by decide +kernel
  obtain ⟨-, acts₁, acts₂, hsplit, hrest, -, hsince⟩ := Moment.told_sinceRest hacts htold
  refine ⟨hout, acts₁, acts₂, hsplit, hrest, hsince.subset ?_⟩
  exact hout ▸ List.mem_singleton_self _

/-- Someone is told that the scheduler is at rest while a request waits for its time. -/
theorem told_scheduled :
    ¬ ∀ (c : Setup Desk) (s : Desk) (acts : List (Act Desk)) (a : Act Desk) (w : Waiter),
      (∀ b ∈ acts, b.Available c) → ((Moment.start s).run c acts).told? a = some w →
      ((Moment.start s).run c acts).machine.atRest = true := by
  intro h
  have hrest := h (setup pausing) twoLines askedMeanwhile .job (.observer 0)
    (by simp [askedMeanwhile, Act.Available]) (by decide +kernel)
  revert hrest
  decide +kernel

end Desk

end TaskLine
