import TaskLine.Proofs.Schedule.Calls
import TaskLine.Proofs.Schedule.Pending

/-!
# Requests that are let through

Whether a request is let through is decided when it is made, by the switches as they are then. It
is run later, when other requests may have come in and the switches may have been set anew. But the
runs that begin are for requests that were let through, in this order and each for one of its own
(`beginnings_sublist`), and they look at the master switch once more. So whoever calls the formatter
was let through before, by switches that could be read (`called_admitted`).
-/

namespace TaskLine

variable {σ : Type} {c : Setup σ}

namespace Setup

variable {s : σ} {reason : Reason}

/-- Switches that cannot be read let nothing through. -/
theorem exists_of_allows (h : (c.flags s).allows reason = true) :
    ∃ flags, (c.switches s).2 = .ok flags ∧ flags.allows reason = true := by
  rw [flags] at h
  split at h
  next flags hread => exact ⟨flags, hread, h⟩
  next => cases reason <;> cases h

theorem exists_of_master (h : (c.flags s).master = true) :
    ∃ flags, (c.switches s).2 = .ok flags ∧ flags.master = true := by
  have hmanual : (c.flags s).allows .manual = true := h
  exact exists_of_allows hmanual

end Setup

namespace Machine

variable {m : Machine σ} {r : Request} {live : Bool}

theorem allows_of_triggered {asked : Except RequestFault Request}
    (h : m.triggered? c live asked = some r) : (c.flags m.world).allows r.reason = true := by
  rw [triggered?.eq_def] at h
  split at h
  next q hresult =>
    obtain rfl := Option.some.inj h
    have hworld : m.disarm.world = m.world := by
      rw [disarm]
      split <;> rfl
    obtain ⟨warnings, hread⟩ := readSwitches_eq c m.disarm
    rw [trigger.eq_def] at hresult
    split at hresult
    · cases hresult
    · simp only [hread, hworld] at hresult
      split at hresult
      · cases hresult
      next hallows => simpa using hallows
  next => cases h

theorem allows_of_triggerNow (h : (m.triggerNow c live (.ok r)).result = .ok true) :
    (c.flags m.world).allows r.reason = true := by
  obtain ⟨warnings, hread⟩ := readSwitches_eq c m
  rw [triggerNow.eq_def] at h
  split at h
  · cases h
  · simp only [hread] at h
    split at h
    · cases h
    next hallows => simpa using hallows

end Machine

namespace Moment

open Machine (Narrow Leashed)

variable {k : Moment σ} {a : Act σ} {acts : List (Act σ)} {r : Request}

/-- What is let through is let through by the switches as they are. -/
theorem allows_of_admitted (h : k.admitted? c a = some r) :
    (c.flags k.machine.world).allows r.reason = true := by
  cases a with
  | trigger live asked => exact Machine.allows_of_triggered h
  | notice live n => exact Machine.allows_of_triggered h
  | attach live =>
      rw [admitted?] at h
      split at h
      · have hallows := Machine.allows_of_triggered h
        exact hallows
      · cases h
  | triggerNow live asked =>
      simp only [admitted?, dispatched?] at h
      split at h
      next hresult =>
        obtain rfl := Option.some.inj h
        exact Machine.allows_of_triggerNow hresult
      next => cases h
  | _ => cases h

/-- The request whose run begins was the first to wait. -/
theorem began_pending (hl : k.machine.Leashed) (h : k.machine.Narrow) :
    ((k.began? a).toList ++ (k.after c a).machine.pending Option.isNone).Sublist
      (k.machine.pending Option.isNone ++ (k.admitted? c a).toList) := by
  cases hgoes : k.goesOn? a with
  | none =>
      rw [began?, hgoes]
      exact pending_after h hgoes
  | some t =>
      obtain ⟨-, honly, -⟩ := exists_of_goesOn (c := c) hl hgoes
      have hbegun : (k.began? a).toList =
          (k.machine.runs.filter fun t => t.paused.isNone).map (·.request) := by
        rw [began?, hgoes, honly]
        cases hpaused : t.paused <;> simp [Option.filter, hpaused]
      obtain hbehind | ⟨run, hp, -⟩ := pending_goesOn (c := c) hl h hgoes (p := Option.isNone)
      · rw [hbegun]
        refine (hbehind.append_left _).trans (List.Sublist.trans ?_ (List.sublist_append_left _ _))
        simp [Machine.pending, Machine.inLine]
      · cases hp

/-! ## Histories -/

/-- The requests that are let through in the course of a history. -/
def admissions (c : Setup σ) (acts : List (Act σ)) (k : Moment σ) : List Request :=
  yields c (fun k a => (k.admitted? c a).toList) acts k

/-- The requests whose runs begin in the course of a history. -/
def beginnings (c : Setup σ) (acts : List (Act σ)) (k : Moment σ) : List Request :=
  yields c (fun k a => (k.began? a).toList) acts k

theorem admissions_cons (a : Act σ) (acts : List (Act σ)) (k : Moment σ) :
    admissions c (a :: acts) k = (k.admitted? c a).toList ++ admissions c acts (k.after c a) := rfl

theorem beginnings_cons (a : Act σ) (acts : List (Act σ)) (k : Moment σ) :
    beginnings c (a :: acts) k = (k.began? a).toList ++ beginnings c acts (k.after c a) := rfl

theorem exists_of_mem_yields {α : Type} {f : Moment σ → Act σ → List α} {x : α}
    (h : x ∈ yields c f acts k) :
    ∃ acts₁ a acts₂, acts = acts₁ ++ a :: acts₂ ∧ x ∈ f (k.run c acts₁) a := by
  induction acts generalizing k with
  | nil => cases h
  | cons a acts ih =>
      obtain hhead | htail := List.mem_append.mp h
      · exact ⟨[], a, acts, rfl, hhead⟩
      · obtain ⟨acts₁, b, acts₂, rfl, hx⟩ := ih htail
        exact ⟨a :: acts₁, b, acts₂, rfl, hx⟩

/-- The runs that begin, and then what is still waiting, come in the order in which the requests
were let through. -/
theorem beginnings_sublist (hl : k.machine.Leashed) (h : k.machine.Narrow) :
    (k.beginnings c acts ++ (k.run c acts).machine.pending Option.isNone).Sublist
      (k.machine.pending Option.isNone ++ k.admissions c acts) := by
  induction acts generalizing k with
  | nil => exact (List.append_nil (k.machine.pending Option.isNone)).symm ▸ List.Sublist.refl _
  | cons a acts ih =>
      have hone := began_pending (c := c) (a := a) hl h
      have hrest := ih (hl.after_shift (shift_after c a hl)) (narrow_after (c := c) (a := a) h)
      rw [beginnings_cons, admissions_cons, run_cons, List.append_assoc]
      refine (hrest.append_left _).trans ?_
      rw [← List.append_assoc, ← List.append_assoc]
      exact hone.append_right _

/-- Whatever calls the formatter was let through before, each time anew. -/
theorem called_admitted (c : Setup σ) (s : σ) (acts : List (Act σ)) (a : Act σ) :
    let k := (start s).run c acts
    ((start s).beginnings c (acts ++ [a])).Sublist ((start s).admissions c acts) ∧
      ((k.after c a).machine.entries = k.machine.entries ∨
        ∃ r call, k.began? a = some r ∧ c.entry? r k.machine.world = some call ∧
          (k.after c a).machine.entries = call :: k.machine.entries ∧
          (∃ flags, (c.switches k.machine.world).2 = .ok flags ∧ flags.master = true) ∧
          ∃ acts₁ b acts₂ flags, acts = acts₁ ++ b :: acts₂ ∧
            ((start s).run c acts₁).admitted? c b = some r ∧
            (c.switches ((start s).run c acts₁).machine.world).2 = .ok flags ∧
            flags.allows r.reason = true) := by
  intro k
  have hbegun : ((start s).beginnings c (acts ++ [a])).Sublist ((start s).admissions c acts) := by
    have hsublist : ∀ acts, ((start s).beginnings c acts).Sublist ((start s).admissions c acts) :=
      fun acts => (List.sublist_append_left _ _).trans
        (beginnings_sublist (leashed_start s) (narrow_start s))
    have hconcat : (start s).beginnings c (acts ++ [a]) =
        (start s).beginnings c acts ++ (k.began? a).toList := yields_concat ..
    cases hb : k.began? a with
    | none =>
        rw [hconcat, hb, Option.toList_none, List.append_nil]
        exact hsublist acts
    | some r =>
        have hnone : (start s).admissions c (acts ++ [.job]) = (start s).admissions c acts :=
          (yields_concat ..).trans (List.append_nil _)
        obtain rfl := eq_job_of_began hb
        exact hnone ▸ hsublist (acts ++ [.job])
  refine ⟨hbegun, (entries_after c k a).imp_right ?_⟩
  rintro ⟨r, call, hb, hentry, hmaster, hcall⟩
  refine ⟨r, call, hb, hentry, hcall, Setup.exists_of_master hmaster, ?_⟩
  have hmem : r ∈ (start s).beginnings c (acts ++ [a]) := by
    rw [beginnings, yields_concat]
    exact List.mem_append_right _ (Option.mem_toList.mpr hb)
  obtain ⟨acts₁, b, acts₂, hsplit, hr⟩ := exists_of_mem_yields (hbegun.subset hmem)
  have hadmitted := Option.mem_toList.mp hr
  obtain ⟨flags, hread, hallows⟩ := Setup.exists_of_allows (allows_of_admitted hadmitted)
  exact ⟨acts₁, b, acts₂, flags, hsplit, hadmitted, hread, hallows⟩

end Moment

end TaskLine
