import TaskLine.Proofs.Formatter.Stopping
import TaskLine.Proofs.Formatter.Writing

/-!
# Stopping a run leaves a clean document

A run over a whole file can be told to stop before it begins and in each of its pauses. Whenever
that is, it writes nothing from then on and reports that it changed nothing. If it would have
replaced all lines at once, the document is as it was; if it was writing them one by one, those
from the first on are formatted and the others untouched (`formatFile_stopped`).
-/

namespace TaskLine

namespace FileRun

/-- How far a run has come behind a number of pauses in which nobody edits anything. -/
def unedited (f : Formatter Desk) (k : Nat) (o : Outcome Desk) : Option (Outcome Desk) :=
  amid f (Stream'.const []) k o

/-- The desk just before a stretch of a run over some lines, while the run is not over: that which
the run starts with, and those that it leaves where it pauses. -/
def before (f : Formatter Desk) (ov : Overrides) (lines : List Text) (d : Desk) :
    Nat → Option Desk
  | 0 => some d
  | k + 1 =>
    match unedited f k (f.startFile ov (lines.map some) false d) with
    | some (.paused _ d') => some d'
    | _ => none

/-! ## Where a plan pauses -/

section Plans

variable {σ : Type} {f : Formatter σ} {ov : Overrides} {lines : List Text}
  {steps steps' done rest : List RunStep}

/-- A pause that does not come in the later steps comes in the earlier ones. -/
theorem prefix_of_pause (h : steps ++ steps' = done ++ .pause :: rest) (hlater : .pause ∉ steps') :
    done <+: steps := by
  have hdone : done <+: steps ++ steps' := ⟨_, h.symm⟩
  rcases prefix_append_cases hdone with hdone | ⟨behind, -, rfl⟩
  · exact hdone
  · rw [List.append_assoc, List.append_cancel_left_eq] at h
    exact absurd (h ▸ by simp) hlater

theorem pause_notMem_applySteps (hline : f.host.replaceAll?.isSome ∨ ¬f.host.replaceLine?.isSome)
    (old new : List Text) : .pause ∉ applySteps f old new := by
  rw [applySteps]
  split
  · simp
  next hall =>
    rw [if_neg (hline.resolve_left hall)]
    simp

/-- Where a plan that does not write the lines one by one pauses nothing has been written. -/
theorem quiet_of_plan (h : plan f ov lines = done ++ .pause :: rest)
    (hline : f.host.replaceAll?.isSome ∨ ¬f.host.replaceLine?.isSome) :
    ∀ step ∈ done, step.quiet = true := by
  rw [plan_eq] at h
  have hdone : done <+: scan f.pace lines := by
    refine prefix_of_pause h ?_
    split
    · simp
    · exact pause_notMem_applySteps hline _ _
  exact fun step hstep => quiet_scan f.pace lines step (hdone.subset hstep)

/-- Where a plan pauses that writes the lines one by one, the first lines have been written. -/
theorem exists_written_of_plan (h : plan f ov lines = done ++ .pause :: rest)
    (hall : ¬f.host.replaceAll?.isSome) :
    ∃ m, writtenBy f done lines = (lines.take m).map (formatIndented ov) ++ lines.drop m := by
  by_cases hline : f.host.replaceLine?.isSome
  · rw [plan_eq] at h
    have hwriting : done <+: scan f.pace lines ++ writeLines f.pace lines.length 0
        (lines.zip (lines.map (formatIndented ov))) := by
      split at h
      · exact (prefix_of_pause h (by simp)).trans (List.prefix_append ..)
      · rw [applySteps, if_neg hall, if_pos hline, ← List.append_assoc] at h
        exact prefix_of_pause h (by simp)
    rcases prefix_append_cases hwriting with hscan | ⟨written, hwritten, rfl⟩
    · refine ⟨0, ?_⟩
      rw [writtenBy_of_quiet fun step hstep =>
        quiet_scan f.pace lines step (hscan.subset hstep)]
      rfl
    · rw [writtenBy_append, writtenBy_of_quiet (quiet_scan f.pace lines)]
      simp only [List.map_take]
      exact exists_written_of_prefix [] hline (by rw [List.length_map]) hwritten
  · refine ⟨0, ?_⟩
    rw [writtenBy_of_quiet (quiet_of_plan h (.inr hline))]
    rfl

end Plans

/-! ## Pauses -/

section Pauses

variable {limits : Desk.Limits} {pace : Pace} {ov : Overrides} {lines : List Text}
  {steps : List RunStep} {run : FileRun} {p : Progress} {d d' : Desk} {k : Nat}

/-- Behind any number of pauses a run has carried out the steps before the pause where it is. -/
theorem exists_of_unedited (h : unedited (Desk.formatter limits pace) k
      (proceed (Desk.formatter limits pace) false steps p d) = some (.paused run d')) :
    ∃ done, steps = done ++ .pause :: run.rest ∧
      d'.document.content = performed (Desk.formatter limits pace) done d.document.content := by
  induction k generalizing steps p d with
  | zero => exact exists_of_paused (Option.some.inj h)
  | succ k ih =>
      cases houtcome : proceed (Desk.formatter limits pace) false steps p d with
      | paused run' d'' =>
          rw [houtcome] at h
          obtain ⟨done, rfl, hcontent⟩ := exists_of_paused houtcome
          have h : unedited (Desk.formatter limits pace) k
              (proceed (Desk.formatter limits pace) false run'.rest run'.progress d'') =
                some (.paused run d') := h
          obtain ⟨done', hrest, hcontent'⟩ := ih h
          refine ⟨done ++ .pause :: done', ?_, ?_⟩
          · rw [hrest, List.append_assoc]
            rfl
          · rw [performed_append, ← hcontent]
            exact hcontent'
      | ended changed d'' => rw [houtcome] at h; cases h
      | failed e d'' => rw [houtcome] at h; cases h

theorem paused_of_before (h : before (Desk.formatter limits pace) ov lines d (k + 1) = some d') :
    ∃ run, unedited (Desk.formatter limits pace) k
      ((Desk.formatter limits pace).startFile ov (lines.map some) false d) =
        some (.paused run d') := by
  rw [before] at h
  split at h
  next run s hpaused => exact ⟨run, Option.some.inj h ▸ hpaused⟩
  · cases h

/-- While a run is not over its document holds what it held before, up to the first lines if it
writes them one by one. -/
theorem content_of_before (h : before (Desk.formatter limits pace) ov d.document.lines d k =
      some d') :
    (.replaceAll ∉ limits.lacks → d'.document.content = d.document.content) ∧
      (.replaceAll ∈ limits.lacks → ∃ m, d'.document.lines =
        (d.document.lines.take m).map (formatIndented ov) ++ d.document.lines.drop m) := by
  cases k with
  | zero =>
      obtain rfl := Option.some.inj h
      exact ⟨fun _ => rfl, fun _ => ⟨0, rfl⟩⟩
  | succ k =>
      obtain ⟨run, hpaused⟩ := paused_of_before h
      rw [startFile_eq] at hpaused
      split at hpaused
      · cases k <;> cases hpaused
      obtain ⟨done, hplan, hcontent⟩ := exists_of_unedited hpaused
      rw [Progress.view_begin (Desk.discreet_content limits pace)] at hcontent
      constructor
      · intro hoffered
        have hquiet := quiet_of_plan hplan (.inl (isSome_replaceAll?.mpr hoffered))
        rw [hcontent, performed_of_quiet hquiet]
      · intro hlacks
        have hlines := congrArg Document.lines hcontent
        rw [lines_performed] at hlines
        obtain ⟨m, hm⟩ := exists_written_of_plan hplan fun hoffered =>
          isSome_replaceAll?.mp hoffered hlacks
        exact ⟨m, hlines.trans hm⟩

end Pauses

/-! ## Stopping -/

section Stopping

variable {σ α : Type} {f : Formatter σ} {view : σ → α} {steps rest : List RunStep} {run : FileRun}
  {p : Progress} {s : σ}

theorem exists_proceed_stopped (hview : f.Discreet view)
    (hquiet : ∀ step ∈ steps, step.quiet = true) (hfinish : ∀ changed, .finish changed ∉ steps)
    (hheed : .heedStop ∈ steps) :
    ∃ s', view s' = view s ∧ (proceed f true (steps ++ rest) p s = .ended false s' ∨
      ∃ run, proceed f true (steps ++ rest) p s = .paused run s') := by
  induction steps generalizing p s with
  | nil => cases hheed
  | cons step steps ih =>
      have hnext : step ≠ .heedStop → ∀ p' s', view s' = view s →
          ∃ s'', view s'' = view s ∧ (proceed f true (steps ++ rest) p' s' = .ended false s'' ∨
            ∃ run, proceed f true (steps ++ rest) p' s' = .paused run s'') := by
        intro hstep p' s' hs'
        obtain ⟨s'', hs'', hcases⟩ := ih (p := p') (s := s')
          (fun step hmem => hquiet step (List.mem_cons_of_mem _ hmem))
          (fun changed hmem => hfinish changed (List.mem_cons_of_mem _ hmem))
          ((List.mem_cons.mp hheed).resolve_left (Ne.symm hstep))
        exact ⟨s'', hs''.trans hs', hcases⟩
      cases step with
      | appear => exact hnext (by simp) _ _ (Progress.view_appear hview s)
      | advance n => exact hnext (by simp) _ _ (Progress.view_advance hview n s)
      | complete => exact hnext (by simp) _ _ (Progress.view_complete hview s)
      | pause => exact ⟨s, rfl, .inr ⟨_, rfl⟩⟩
      | heedStop => exact ⟨_, Progress.view_close hview s, .inl rfl⟩
      | writeLine n line => cases hquiet _ List.mem_cons_self
      | writeAll lines => cases hquiet _ List.mem_cons_self
      | finish changed => exact absurd List.mem_cons_self (hfinish changed)

/-- A run that is told to stop before it begins does not get past its scan. -/
theorem exists_startFile_stopped (hview : f.Discreet view) (ov : Overrides) (lines : List Text)
    (s : σ) :
    ∃ s', view s' = view s ∧ (f.startFile ov (lines.map some) true s = .ended false s' ∨
      ∃ run, f.startFile ov (lines.map some) true s = .paused run s') := by
  rw [startFile_eq, plan_eq]
  split
  · exact ⟨s, rfl, .inl rfl⟩
  · obtain ⟨s', hs', hproceed⟩ := exists_proceed_stopped hview
      (quiet_scan f.pace lines) (finish_notMem_scan f.pace lines)
      (List.mem_append_right _ (List.mem_singleton_self _))
    exact ⟨s', hs'.trans (Progress.view_begin hview lines.length s), hproceed⟩

/-- A paused run that is told to stop does nothing more. -/
theorem Heeds.carryThrough_stopped (h : run.Heeds) {stopped : Nat → Bool} {i : Nat}
    (hstopped : stopped (i + 1) = true) (fuel : Nat) :
    f.carryThrough stopped (fuel + 1) i (.paused run s) =
      ⟨.ok false, i + 2, true, run.progress.close f s⟩ := by
  rw [Formatter.carryThrough, hstopped, h.resume_stopped, ← hstopped]
  cases fuel <;> rfl

end Stopping

theorem carryThrough_unedited {f : Formatter Desk} {o : Outcome Desk} {run : FileRun} {d' : Desk}
    {fuel i k : Nat} (ho : ∀ run d, o = .paused run d → run.Heeds) (hfuel : o.stretchesLeft ≤ fuel)
    (h : unedited f k o = some (.paused run d')) :
    f.carryThrough (fun j => decide (i + k + 1 ≤ j)) fuel i o =
      ⟨.ok false, i + k + 2, true, run.progress.close f d'⟩ := by
  induction k generalizing o fuel i with
  | zero =>
      obtain rfl := Option.some.inj h
      cases fuel with
      | zero => exact absurd hfuel (Nat.not_succ_le_zero _)
      | succ fuel =>
          exact (ho run d' rfl).carryThrough_stopped (decide_eq_true (Nat.le_refl _)) fuel
  | succ k ih =>
      cases o with
      | ended changed d => cases h
      | failed e d => cases h
      | paused run₀ d =>
          cases fuel with
          | zero => exact absurd hfuel (Nat.not_succ_le_zero _)
          | succ fuel =>
              have hgoes : decide (i + (k + 1) + 1 ≤ i + 1) = false := by simp
              have hleft : (run₀.resume f false d).stretchesLeft ≤ fuel :=
                Nat.le_trans (stretchesLeft_proceed_le f false _ _ d)
                  (Nat.le_of_succ_le_succ hfuel)
              have hrest := ih (i := i + 1)
                (fun run d' hpaused => (ho run₀ d rfl).heeds_of_resume hpaused) hleft h
              rw [Formatter.carryThrough, hgoes]
              rw [Nat.add_right_comm i 1 k] at hrest
              exact hrest

end FileRun

theorem Formatter.formatFile_some {σ : Type} (f : Formatter σ) (ov : Overrides)
    (lines : List (Option Text)) (k : Nat) (s : σ) :
    f.formatFile ov lines (some k) s =
      f.carryThrough (fun i => decide (k ≤ i))
        (f.startFile ov lines (decide (k ≤ 0)) s).stretchesLeft 0
        (f.startFile ov lines (decide (k ≤ 0)) s) := f.formatFile_eq ov lines (some k) s

namespace Desk

/-- Whenever a run over the lines of a document is told to stop while it is not over, it reports
that it changed nothing and no write is asked for any more. With a document that takes all lines at
once nothing has changed at all; else the lines up to some place are formatted, and those from there
on are untouched. -/
theorem formatFile_stopped (limits : Limits) (pace : Pace) (ov : Overrides) (d d' : Desk) (k : Nat)
    (hbefore : FileRun.before (formatter limits pace) ov d.document.lines d k = some d') :
    let lines := d.document.lines
    let run := (formatter limits pace).formatFile ov (lines.map some) (some k) d
    run.result = .ok false ∧ run.stopped = true ∧
      run.state.document.content = d'.document.content ∧
      (.replaceAll ∉ limits.lacks → run.state.document.content = d.document.content) ∧
      (.replaceAll ∈ limits.lacks → ∃ m, run.state.document.lines =
        (lines.take m).map (formatIndented ov) ++ lines.drop m) := by
  intro lines run
  have hdiscreet := discreet_content limits pace
  suffices hrun : run.result = .ok false ∧ run.stopped = true ∧
      run.state.document.content = d'.document.content by
    obtain ⟨hall, hline⟩ := FileRun.content_of_before hbefore
    refine ⟨hrun.1, hrun.2.1, hrun.2.2, fun hoffered => ?_, fun hlacks => ?_⟩
    · rw [hrun.2.2, hall hoffered]
    · obtain ⟨m, hm⟩ := hline hlacks
      exact ⟨m, (congrArg Document.lines hrun.2.2).trans hm⟩
  have hrun := Formatter.formatFile_some (formatter limits pace) ov (lines.map some) k d
  cases k with
  | zero =>
      obtain rfl : d = d' := Option.some.inj hbefore
      obtain ⟨s, hs, hstart | ⟨paused, hstart⟩⟩ :=
        FileRun.exists_startFile_stopped hdiscreet ov lines d
      · rw [show decide (0 ≤ 0) = true from rfl, hstart] at hrun
        rw [show run = _ from hrun]
        exact ⟨rfl, rfl, hs⟩
      · have hheeds := FileRun.heeds_of_startFile hstart
        rw [show decide (0 ≤ 0) = true from rfl, hstart, FileRun.Outcome.stretchesLeft,
          hheeds.carryThrough_stopped rfl] at hrun
        rw [show run = _ from hrun]
        exact ⟨rfl, rfl, (Progress.view_close hdiscreet s).trans hs⟩
  | succ k =>
      obtain ⟨paused, hpaused⟩ := FileRun.paused_of_before hbefore
      have hcarried := FileRun.carryThrough_unedited (i := 0)
        (fun run d hpaused => FileRun.heeds_of_startFile hpaused) (Nat.le_refl _) hpaused
      rw [Nat.zero_add] at hcarried
      rw [show run = _ from hrun.trans hcarried]
      exact ⟨rfl, rfl, Progress.view_close hdiscreet d'⟩

/-- Three tasks, each with a space too many. -/
def threeTasks : Desk :=
  { document := .ofLines ["- [ ]  a".toList, "- [ ]  b".toList, "- [ ]  c".toList] 0 none }

/-- In its third pause a run over three tasks has written two of them. -/
theorem formatFile_stopped_threeTasks :
    ∃ d', FileRun.before (formatter { lacks := [.replaceAll] } { pauseEvery := 1 }) {}
        threeTasks.document.lines threeTasks 3 = some d' ∧
      d'.document.lines = ["- [ ] a".toList, "- [ ] b".toList, "- [ ]  c".toList] ∧
      let run := (formatter { lacks := [.replaceAll] } { pauseEvery := 1 }).formatFile {}
        (threeTasks.document.lines.map some) (some 3) threeTasks
      run.result = .ok false ∧ run.state.document.lines = d'.document.lines ∧
        ∃ m, run.state.document.lines =
          (threeTasks.document.lines.take m).map (formatIndented {}) ++
            threeTasks.document.lines.drop m := by
  have hlines : (FileRun.before (formatter { lacks := [.replaceAll] } { pauseEvery := 1 }) {}
      threeTasks.document.lines threeTasks 3).map (·.document.lines) =
        some ["- [ ] a".toList, "- [ ] b".toList, "- [ ]  c".toList] := by
    decide +kernel
  obtain ⟨d', hbefore, hd'⟩ := Option.map_eq_some_iff.mp hlines
  obtain ⟨hresult, -, hcontent, -, hwritten⟩ :=
    formatFile_stopped { lacks := [.replaceAll] } { pauseEvery := 1 } {} threeTasks d' 3 hbefore
  have hkept := congrArg (fun d : Document => d.lines) hcontent
  exact ⟨d', hbefore, hd', hresult, hkept, hwritten (by decide)⟩

end Desk

end TaskLine
