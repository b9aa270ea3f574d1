import TaskLine.Formatter.Line
import TaskLine.Proofs.Formatter.Course

/-!
# How far a run can go

A run over a whole file is planned from the lines that it is given. For each of them it pauses at
most twice, once while it looks at them and once while it writes them, and when it goes on one pause
less is left (`fits_of_startFile`, `Fits.of_resume`). What it writes are as many lines as it was
given, so a host that tells no more lines than it is given (`Host.Confined`) never tells more than
there were at first, or than the run began with (`size_startFile`, `size_resume`).
-/

namespace TaskLine

/-! ## Hosts that do not grow -/

/-- What is written does not make a host larger: a line stands where a line stood, and of all lines
there are no more than were written, or one. -/
structure Host.Confined {σ : Type} (host : Host σ) (size : σ → Nat) : Prop where
  line : ∀ replace ∈ host.replaceLine?, ∀ n line s, size (replace n line s).state ≤ size s
  selecting : ∀ replace ∈ host.replaceSelecting?, ∀ n line sel s,
    size (replace n line sel s).state ≤ size s
  all : ∀ replace ∈ host.replaceAll?, ∀ lines s, size (replace lines s).state ≤ max 1 lines.length

/-- Neither does telling progress or reading the clock. -/
structure Formatter.Confined {σ : Type} (f : Formatter σ) (size : σ → Nat) : Prop where
  discreet : f.Discreet size
  host : f.host.Confined size

namespace Host.Confined

variable {σ τ : Type} {host : Host σ} {size : σ → Nat}

theorem without (h : host.Confined size) (lacks : Ability → Bool) :
    (host.without lacks).Confined size where
  line replace hr := h.line replace (Option.ite_none_left_eq_some.mp hr).2
  selecting replace hr := h.selecting replace (Option.ite_none_left_eq_some.mp hr).2
  all replace hr := h.all replace (Option.ite_none_left_eq_some.mp hr).2

theorem bare (h : host.Confined size) : host.bare.Confined size := ⟨h.line, h.selecting, h.all⟩

/-- A host that is a part of a larger state makes that no larger. -/
theorem within (h : host.Confined size) (get : τ → σ) (put : σ → τ → τ)
    (hput : ∀ s t, get (put s t) = s) :
    (host.within get put).Confined fun t => size (get t) where
  line replace hr n line t := by
    obtain ⟨replace', hr', rfl⟩ := Option.map_eq_some_iff.mp hr
    rw [hput]
    exact h.line replace' hr' n line (get t)
  selecting replace hr n line sel t := by
    obtain ⟨replace', hr', rfl⟩ := Option.map_eq_some_iff.mp hr
    rw [hput]
    exact h.selecting replace' hr' n line sel (get t)
  all replace hr lines t := by
    obtain ⟨replace', hr', rfl⟩ := Option.map_eq_some_iff.mp hr
    rw [hput]
    exact h.all replace' hr' lines (get t)

end Host.Confined

theorem Document.confined_host : host.Confined fun d => d.lines.length where
  line := by
    rintro _ ⟨⟩ n line d
    simp only [written, replaceLine]
    split
    · exact Nat.le_of_eq List.length_set
    · exact Nat.le_refl _
  selecting := by
    rintro _ ⟨⟩ n line sel d
    simp only [written, replaceSelecting]
    split
    · exact Nat.le_of_eq List.length_set
    · exact Nat.le_refl _
  all := by
    rintro _ ⟨⟩ lines d
    simp only [written, lines_replaceAll]
    split
    · exact Nat.le_max_left 1 _
    · exact Nat.le_max_right 1 _

theorem Desk.confined_formatter (limits : Limits) (pace : Pace) :
    (formatter limits pace).Confined fun d => d.document.lines.length where
  discreet := (discreet_formatter limits pace).map List.length
  host := by
    have hoffered := Document.confined_host.without fun a => limits.lacks.contains a
    have hhost : (if limits.bare then (Document.host.without fun a => limits.lacks.contains a).bare
        else Document.host.without fun a => limits.lacks.contains a).Confined
          fun d => d.lines.length := by
      split
      · exact hoffered.bare
      · exact hoffered
    exact hhost.within Desk.document (fun document d => { d with document }) fun _ _ => rfl

/-! ## Single lines -/

namespace Formatter.Confined

variable {σ : Type} {f : Formatter σ} {size : σ → Nat}

theorem size_putBack (h : f.Confined size) (ov : Overrides) (n : Int) (line : Text)
    (sel : Option Selection) (s : σ) : size (f.putBack ov n line sel s).state ≤ size s := by
  rw [putBack.eq_def]
  dsimp only
  split
  · exact Nat.le_refl _
  · split
    next replace hr => exact h.host.selecting replace hr _ _ _ s
    next replace hr _ => exact h.host.line replace hr _ _ s
    next => exact Nat.le_refl _

theorem size_formatCurrent (h : f.Confined size) (ov : Overrides) (s : σ) :
    size (f.formatCurrent ov s).state ≤ size s := by
  rw [formatCurrent]
  split
  · exact Nat.le_refl _
  · split
    · exact Nat.le_refl _
    · exact h.size_putBack ..

theorem size_formatLineAt (h : f.Confined size) (ov : Overrides) (n : Int) (s : σ) :
    size (f.formatLineAt ov n s).state ≤ size s := by
  rw [formatLineAt]
  split
  · exact Nat.le_refl _
  · split
    · exact Nat.le_refl _
    · exact h.size_putBack ..

end Formatter.Confined

/-! ## The progress of a run -/

namespace Progress

variable {σ : Type} (f : Formatter σ) (p : Progress) (s : σ)

theorem total_send (n : Nat) (t : Binary64) : (send f n t p s).1.total = p.total := by
  rw [send]
  split <;> rfl

theorem total_appear : (p.appear f s).1.total = p.total := by
  rw [appear]
  split
  · rfl
  · dsimp only
    split
    · rfl
    · split <;> rfl

theorem total_advance (n : Nat) : (p.advance f n s).1.total = p.total := by
  rw [advance]
  split
  · dsimp only
    split
    · rfl
    · exact total_send ..
  · rfl

theorem total_complete : (p.complete f s).1.total = p.total := by
  rw [complete]
  dsimp only
  split
  · exact (total_send ..).trans (total_appear f p s)
  · exact total_appear f p s

end Progress

/-! ## Plans -/

/-- How many lines a host tells at most when a step has written all of them. -/
def RunStep.extent : RunStep → Nat
  | .writeAll lines => max 1 lines.length
  | _ => 0

namespace FileRun

variable {σ : Type} {f : Formatter σ} {ov : Overrides} {stopped : Bool} {steps : List RunStep}
  {run run' : FileRun} {p : Progress} {s s' : σ} {size : σ → Nat} {b : Nat}

theorem count_scanSteps_le (pace : Pace) (i : Nat) : (scanSteps pace i).count .pause ≤ 1 := by
  rw [scanSteps, List.count_append]
  split <;> split <;> simp

theorem count_flatMap_le {α : Type} {g : α → List RunStep} (hg : ∀ a, (g a).count .pause ≤ 1)
    (as : List α) : (as.flatMap g).count .pause ≤ as.length := by
  induction as with
  | nil => exact Nat.le_refl _
  | cons a as ih =>
      rw [List.flatMap_cons, List.count_append, List.length_cons, Nat.add_comm]
      exact Nat.add_le_add ih (hg a)

theorem count_writeSteps_le (pace : Pace) (total i : Nat) (old new : Text) :
    (writeSteps pace total i old new).count .pause ≤ 1 := by
  rw [writeSteps, List.count_append]
  split <;> split <;> simp

theorem count_writeLines_le (pace : Pace) (total i : Nat) (lines : List (Text × Text)) :
    (writeLines pace total i lines).count .pause ≤ lines.length := by
  induction lines generalizing i with
  | nil => exact Nat.le_refl _
  | cons line lines ih =>
      rw [writeLines, List.count_append, List.length_cons, Nat.add_comm]
      exact Nat.add_le_add (ih (i + 1)) (count_writeSteps_le ..)

theorem count_applySteps_le (f : Formatter σ) (old new : List Text) :
    (applySteps f old new).count .pause ≤ old.length := by
  rw [applySteps]
  split
  · simp
  · split
    · rw [List.count_append]
      refine Nat.le_trans (count_writeLines_le ..) ?_
      rw [List.length_zip]
      exact Nat.min_le_left ..
    · simp

/-- A run pauses at most twice for each line. -/
theorem count_plan_le (f : Formatter σ) (ov : Overrides) (lines : List Text) :
    (plan f ov lines).count .pause ≤ 2 * lines.length := by
  have hscan := count_flatMap_le (count_scanSteps_le f.pace) (List.range lines.length)
  rw [List.length_range] at hscan
  rw [plan, List.count_append, Nat.two_mul]
  refine Nat.add_le_add hscan ?_
  rw [List.count_cons_of_ne (by simp)]
  split
  · simp
  · exact count_applySteps_le f lines _

theorem extent_scanSteps (pace : Pace) (i : Nat) : ∀ step ∈ scanSteps pace i, step.extent = 0 := by
  rw [scanSteps]
  split <;> split <;> simp [RunStep.extent]

theorem extent_writeSteps (pace : Pace) (total i : Nat) (old new : Text) :
    ∀ step ∈ writeSteps pace total i old new, step.extent = 0 := by
  rw [writeSteps]
  split <;> split <;> simp [RunStep.extent]

theorem extent_writeLines (pace : Pace) (total i : Nat) (lines : List (Text × Text)) :
    ∀ step ∈ writeLines pace total i lines, step.extent = 0 := by
  induction lines generalizing i with
  | nil => exact nofun
  | cons line lines ih =>
      exact List.forall_mem_append.mpr ⟨extent_writeSteps pace total i line.1 line.2, ih (i + 1)⟩

theorem extent_applySteps_le (f : Formatter σ) (old new : List Text) :
    ∀ step ∈ applySteps f old new, step.extent ≤ max 1 new.length := by
  rw [applySteps]
  split
  · refine List.forall_mem_cons.mpr ⟨Nat.le_refl (max 1 new.length), ?_⟩
    simp [RunStep.extent]
  · split
    · refine List.forall_mem_append.mpr ⟨fun step hstep => ?_, by simp [RunStep.extent]⟩
      rw [extent_writeLines _ _ _ _ step hstep]
      exact Nat.zero_le _
    · simp [RunStep.extent]

/-- All that a plan writes at once are the lines that it was given, formatted. -/
theorem extent_plan_le {lines : List Text} (hlines : lines ≠ []) :
    ∀ step ∈ plan f ov lines, step.extent ≤ lines.length := by
  have hone : max 1 (lines.map (formatIndented ov)).length = lines.length := by
    rw [List.length_map]
    exact Nat.max_eq_right (List.length_pos_iff.mpr hlines)
  rw [plan]
  refine List.forall_mem_append.mpr ⟨fun step hstep => ?_, List.forall_mem_cons.mpr ⟨?_, ?_⟩⟩
  · obtain ⟨i, -, hscan⟩ := List.mem_flatMap.mp hstep
    rw [extent_scanSteps _ _ step hscan]
    exact Nat.zero_le _
  · exact Nat.zero_le _
  · split
    · simp [RunStep.extent]
    · exact hone ▸ extent_applySteps_le f lines _

/-- Where a plan pauses the rest of it is left. -/
theorem exists_of_proceed (hpaused : proceed f stopped steps p s = .paused run s') :
    (∃ done, steps = done ++ .pause :: run.rest) ∧ run.progress.total = p.total := by
  induction steps generalizing p s with
  | nil => cases hpaused
  | cons step rest ih =>
      -- a step that the run gets past is done when it pauses
      have hpast : ∀ {p' s''}, p'.total = p.total →
          proceed f stopped rest p' s'' = .paused run s' →
          (∃ done, step :: rest = done ++ .pause :: run.rest) ∧ run.progress.total = p.total := by
        intro p' s'' htotal hrest
        obtain ⟨⟨done, hdone⟩, hrun⟩ := ih hrest
        exact ⟨⟨step :: done, congrArg (step :: ·) hdone⟩, hrun.trans htotal⟩
      cases step with
      | pause =>
          obtain ⟨rfl, -⟩ := Outcome.paused.inj hpaused
          exact ⟨⟨[], rfl⟩, rfl⟩
      | appear => exact hpast (Progress.total_appear f p s) hpaused
      | advance n => exact hpast (Progress.total_advance f p s n) hpaused
      | complete => exact hpast (Progress.total_complete f p s) hpaused
      | finish changed => cases hpaused
      | heedStop =>
          rw [proceed] at hpaused
          split at hpaused
          · cases hpaused
          · exact hpast rfl hpaused
      | writeLine n line =>
          rw [proceed] at hpaused
          split at hpaused
          · exact hpast rfl hpaused
          · split at hpaused
            · exact hpast rfl hpaused
            · cases hpaused
      | writeAll lines =>
          rw [proceed] at hpaused
          split at hpaused
          · exact hpast rfl hpaused
          · split at hpaused
            · exact hpast rfl hpaused
            · cases hpaused

/-! ## Runs -/

/-- What is left of a paused run writes no more lines than the run was given. -/
def Fits (run : FileRun) : Prop := ∀ step ∈ run.rest, step.extent ≤ run.progress.total

theorem size_proceed (h : f.Confined size) (hs : size s ≤ b)
    (hsteps : ∀ step ∈ steps, step.extent ≤ b) : size (proceed f stopped steps p s).state ≤ b := by
  have hclose : ∀ (p : Progress) (s : σ), size s ≤ b → size (p.close f s) ≤ b := fun p s hs =>
    (Progress.view_close h.discreet s).symm ▸ hs
  induction steps generalizing p s with
  | nil => exact hclose p s hs
  | cons step rest ih =>
      have hrest : ∀ {p s}, size s ≤ b → size (proceed f stopped rest p s).state ≤ b := fun hs =>
        ih hs fun step hstep => hsteps step (List.mem_cons_of_mem _ hstep)
      cases step with
      | pause => exact hs
      | appear => exact hrest ((Progress.view_appear h.discreet s).symm ▸ hs)
      | advance n => exact hrest ((Progress.view_advance h.discreet n s).symm ▸ hs)
      | complete => exact hrest ((Progress.view_complete h.discreet s).symm ▸ hs)
      | finish changed => exact hclose p s hs
      | heedStop =>
          rw [proceed]
          split
          · exact hclose p s hs
          · exact hrest hs
      | writeLine n line =>
          rw [proceed]
          split
          · exact hrest hs
          next replace hr =>
            have hwritten := Nat.le_trans (h.host.line replace hr n line s) hs
            split <;> rename_i hresult <;> rw [hresult] at hwritten
            · exact hrest hwritten
            · exact hclose p _ hwritten
      | writeAll lines =>
          rw [proceed]
          split
          · exact hrest hs
          next replace hr =>
            have hextent : max 1 lines.length ≤ b := hsteps (.writeAll lines) List.mem_cons_self
            have hwritten := Nat.le_trans (h.host.all replace hr lines s) hextent
            split <;> rename_i hresult <;> rw [hresult] at hwritten
            · exact hrest hwritten
            · exact hclose p _ hwritten

theorem startFile_eq (lines : List Text) : f.startFile ov (lines.map some) stopped s =
    if lines.isEmpty then .ended false s
    else proceed f stopped (plan f ov lines) (Progress.begin f lines.length s).1
      (Progress.begin f lines.length s).2 := by
  have hfilled : filled (lines.map some) = lines := by simp [filled, Function.comp_def]
  rw [Formatter.startFile, hfilled]

/-- A run over some lines goes on behind its first pause for the rest of its plan. -/
theorem fits_of_startFile {lines : List Text}
    (hpaused : f.startFile ov (lines.map some) stopped s = .paused run s') :
    run.Fits ∧ run.progress.total = lines.length ∧ run.pauses + 1 ≤ 2 * lines.length := by
  rw [startFile_eq] at hpaused
  split at hpaused
  · cases hpaused
  next hlines =>
    rw [List.isEmpty_iff] at hlines
    obtain ⟨⟨done, hdone⟩, htotal⟩ := exists_of_proceed hpaused
    refine ⟨fun step hstep => ?_, htotal, ?_⟩
    · rw [htotal]
      exact extent_plan_le hlines step (by rw [hdone]; simp [hstep])
    · refine Nat.le_trans ?_ (count_plan_le f ov lines)
      rw [pauses, hdone, List.count_append, List.count_cons_self]
      exact Nat.le_add_left ..

/-- A paused run goes on for the rest of what was left. -/
theorem Fits.of_resume (h : run.Fits) (hpaused : run.resume f stopped s = .paused run' s') :
    run'.Fits ∧ run'.progress.total = run.progress.total ∧ run'.pauses + 1 ≤ run.pauses := by
  obtain ⟨⟨done, hdone⟩, htotal⟩ := exists_of_proceed hpaused
  refine ⟨fun step hstep => ?_, htotal, ?_⟩
  · rw [htotal]
    exact h step (by rw [hdone]; simp [hstep])
  · rw [pauses, pauses, hdone, List.count_append, List.count_cons_self]
    exact Nat.le_add_left ..

theorem size_startFile (h : f.Confined size) {lines : List Text} (hs : size s ≤ b)
    (hlines : lines.length ≤ b) : size (f.startFile ov (lines.map some) stopped s).state ≤ b := by
  rw [startFile_eq]
  split
  · exact hs
  next hsome =>
    rw [List.isEmpty_iff] at hsome
    refine size_proceed h ?_ fun step hstep => Nat.le_trans (extent_plan_le hsome step hstep) hlines
    exact (Progress.view_begin h.discreet ..).symm ▸ hs

theorem Fits.size_resume (hf : f.Confined size) (h : run.Fits) (hs : size s ≤ b)
    (htotal : run.progress.total ≤ b) : size (run.resume f stopped s).state ≤ b :=
  size_proceed hf hs fun step hstep => Nat.le_trans (h step hstep) htotal

end FileRun

end TaskLine
