import TaskLine.Formatter.File

/-!
# Runs that are told to stop

A run over a whole file is told to stop while it pauses, so it finds out only when it goes on. Its
plan is *heedful*: right behind every pause, in the scanning of the lines as well as in the writing
of them, it looks whether it was told to stop (`heedful_plan`). Hence a run that was told to stop
takes its display away and is over (`resume_stopped`): nothing that is left of its plan is done.
-/

namespace TaskLine

namespace FileRun

variable {σ : Type} {f : Formatter σ} {stopped : Bool} {steps steps' : List RunStep}
  {run : FileRun} {p : Progress} {s s' : σ}

/-- Behind every pause of a plan comes a look whether the run was told to stop. -/
inductive Heedful : List RunStep → Prop where
  | nil : Heedful []
  | pause {rest : List RunStep} (h : Heedful rest) : Heedful (.pause :: .heedStop :: rest)
  | step {step : RunStep} {rest : List RunStep} (hstep : step ≠ .pause) (h : Heedful rest) :
    Heedful (step :: rest)

/-- A paused run that looks, before it does anything else, whether it was told to stop. -/
def Heeds (run : FileRun) : Prop := ∃ rest, run.rest = .heedStop :: rest ∧ Heedful rest

/-! ## Plans -/

theorem Heedful.append (h : Heedful steps) (h' : Heedful steps') : Heedful (steps ++ steps') := by
  induction h with
  | nil => exact h'
  | pause _ ih => exact .pause ih
  | step hstep _ ih => exact .step hstep ih

theorem heedful_of_not_mem (h : .pause ∉ steps) : Heedful steps := by
  induction steps with
  | nil => exact .nil
  | cons step rest ih =>
      rw [List.mem_cons, not_or] at h
      exact .step (Ne.symm h.1) (ih h.2)

theorem heedful_flatMap {α : Type} {g : α → List RunStep} (hg : ∀ a, Heedful (g a))
    (as : List α) : Heedful (as.flatMap g) := by
  induction as with
  | nil => exact .nil
  | cons a as ih => exact (hg a).append ih

theorem heedful_scanSteps (pace : Pace) (i : Nat) : Heedful (scanSteps pace i) := by
  refine Heedful.append (heedful_of_not_mem ?_) ?_
  · split <;> simp
  · split
    · exact .pause (heedful_of_not_mem (by simp))
    · exact .nil

theorem heedful_writeSteps (pace : Pace) (total i : Nat) (old new : Text) :
    Heedful (writeSteps pace total i old new) := by
  refine Heedful.append (heedful_of_not_mem ?_) ?_
  · split <;> simp
  · split
    · exact .pause (heedful_of_not_mem (by simp))
    · exact .nil

theorem heedful_writeLines (pace : Pace) (total i : Nat) (lines : List (Text × Text)) :
    Heedful (writeLines pace total i lines) := by
  induction lines generalizing i with
  | nil => exact .nil
  | cons line lines ih => exact (heedful_writeSteps ..).append (ih (i + 1))

theorem heedful_applySteps (f : Formatter σ) (old new : List Text) :
    Heedful (applySteps f old new) := by
  rw [applySteps]
  split
  · exact heedful_of_not_mem (by simp)
  · split
    · exact (heedful_writeLines ..).append (heedful_of_not_mem (by simp))
    · exact heedful_of_not_mem (by simp)

theorem heedful_plan (f : Formatter σ) (ov : Overrides) (lines : List Text) :
    Heedful (plan f ov lines) := by
  refine (heedful_flatMap (heedful_scanSteps f.pace) _).append (.step (by simp) ?_)
  split
  · exact heedful_of_not_mem (by simp)
  · exact heedful_applySteps ..

/-! ## Pauses -/

/-- Where a heedful plan pauses the run heeds what it is told. -/
theorem Heedful.heeds_of_proceed (h : Heedful steps)
    (hpaused : proceed f stopped steps p s = .paused run s') : run.Heeds := by
  induction h generalizing p s with
  | nil => cases hpaused
  | pause h =>
      obtain ⟨rfl, -⟩ := Outcome.paused.inj hpaused
      exact ⟨_, rfl, h⟩
  | @step step rest hstep h ih =>
      cases step with
      | pause => exact absurd rfl hstep
      | appear => exact ih hpaused
      | advance n => exact ih hpaused
      | complete => exact ih hpaused
      | finish changed => cases hpaused
      | heedStop =>
          rw [proceed] at hpaused
          split at hpaused
          · cases hpaused
          · exact ih hpaused
      | writeLine n line =>
          rw [proceed] at hpaused
          split at hpaused
          · exact ih hpaused
          · split at hpaused
            · exact ih hpaused
            · cases hpaused
      | writeAll lines =>
          rw [proceed] at hpaused
          split at hpaused
          · exact ih hpaused
          · split at hpaused
            · exact ih hpaused
            · cases hpaused

theorem heeds_of_startFile {ov : Overrides} {lines : List (Option Text)}
    (hpaused : f.startFile ov lines stopped s = .paused run s') : run.Heeds := by
  rw [Formatter.startFile] at hpaused
  dsimp only at hpaused
  split at hpaused
  · cases hpaused
  · exact (heedful_plan ..).heeds_of_proceed hpaused

theorem Heeds.heeds_of_resume {run' : FileRun} (h : run.Heeds)
    (hpaused : run.resume f stopped s = .paused run' s') : run'.Heeds := by
  obtain ⟨rest, hrest, hheedful⟩ := h
  rw [resume, hrest] at hpaused
  exact (Heedful.step (by simp) hheedful).heeds_of_proceed hpaused

/-- A run that was told to stop takes its display away and is over. -/
theorem Heeds.resume_stopped (h : run.Heeds) (s : σ) :
    run.resume f true s = .ended false (run.progress.close f s) := by
  obtain ⟨rest, hrest, -⟩ := h
  rw [resume, hrest, proceed, if_pos rfl]

end FileRun

end TaskLine
