import TaskLine.Proofs.Formatter.Agreement
import TaskLine.Proofs.Placement

/-!
# Where formatting leaves the selection

Jobs are given to a formatter one after the other: to format the line of the cursor, the line of a
number or all lines. What a job can do to the document is little: it replaces lines one by one, or
the cursor's line along with a selection that is within the new one, or all lines at once
(`Job.run_cases`). Whichever it is, the cursor stays on a line. Only a job of the last kind can
leave the selection behind the end of its line, so a course of jobs keeps the document in place all
along exactly if the selection fits whenever all lines are replaced at once (`inPlace_iff_fits`).
-/

namespace TaskLine

/-- Only what a document holds tells whether its cursor is on a line. -/
theorem Document.onLine_congr {d d' : Document} (h : d.content = d'.content) :
    d.OnLine ↔ d'.OnLine := by
  show d.content.OnLine ↔ d'.content.OnLine
  rw [h]

/-- Only what a document holds tells whether it is in place. -/
theorem Document.inPlace_congr {d d' : Document} (h : d.content = d'.content) :
    d.InPlace ↔ d'.InPlace := by
  have hcontent : ∀ d : Document, d.content.InPlace ↔ d.InPlace := fun _ =>
    ⟨fun h => ⟨h.onLine, h.selection⟩, fun h => ⟨h.onLine, h.selection⟩⟩
  rw [← hcontent d, ← hcontent d', h]

/-! ## What a run over a whole file writes -/

theorem RunStep.extent_of_quiet {step : RunStep} (h : step.quiet = true) : step.extent = 0 := by
  cases step with
  | writeLine n line => rfl
  | writeAll lines => cases h
  | _ => rfl

namespace FileRun

variable {σ : Type} {f : Formatter σ} {steps : List RunStep}

/-- Steps none of which writes all lines replace some lines, one after the other. -/
theorem exists_replaceLines_performed (h : ∀ step ∈ steps, step.extent = 0) (d : Document) :
    ∃ writes, performed f steps d = d.replaceLines writes := by
  induction steps generalizing d with
  | nil => exact ⟨[], rfl⟩
  | cons step steps ih =>
      obtain ⟨hstep, hsteps⟩ := List.forall_mem_cons.mp h
      obtain ⟨writes, hwrites⟩ := ih hsteps (step.carriedOut f d)
      cases step with
      | writeLine n line =>
          by_cases hoffered : f.host.replaceLine?.isSome
          · have hline : (RunStep.writeLine n line).carriedOut f d = d.replaceLine n line :=
              if_pos hoffered
            exact ⟨(↑n, line) :: writes, hwrites.trans (by rw [hline]; rfl)⟩
          · have hline : (RunStep.writeLine n line).carriedOut f d = d := if_neg hoffered
            exact ⟨writes, hwrites.trans (by rw [hline])⟩
      | writeAll lines =>
          have hpos : max 1 lines.length = 0 := hstep
          omega
      | _ => exact ⟨writes, hwrites⟩

/-- A plan ends in what it has to report. Either it replaces all lines at once and reports a change,
or no step of it replaces more than one line. -/
theorem exists_plan_cases (f : Formatter σ) (ov : Overrides) (lines : List Text) :
    ∃ steps changed, plan f ov lines = steps ++ [.finish changed] ∧
      (∀ changed, .finish changed ∉ steps) ∧
      ((f.host.replaceAll?.isSome ∧ changed = true ∧ steps =
          scan f.pace lines ++ [.writeAll (lines.map (formatIndented ov)), .complete]) ∨
        (¬(f.host.replaceAll?.isSome ∧ changed = true) ∧ ∀ step ∈ steps, step.extent = 0)) := by
  obtain ⟨steps, changed, hclosing, hplan⟩ := exists_closing f ov lines
  have hscan : ∀ step ∈ scan f.pace lines, step.extent = 0 := fun step hstep =>
    RunStep.extent_of_quiet (quiet_scan f.pace lines step hstep)
  refine ⟨_, changed, hplan, hclosing.finish_notMem f.pace lines, ?_⟩
  cases hclosing with
  | unchanged hnew =>
      refine .inr ⟨nofun, List.forall_mem_append.mpr ⟨hscan, ?_⟩⟩
      simp [RunStep.extent]
  | atOnce hnew hall => exact .inl ⟨hall, rfl, rfl⟩
  | oneByOne hnew hall hline =>
      refine .inr ⟨fun h => hall h.1, List.forall_mem_append.mpr ⟨hscan, ?_⟩⟩
      refine List.forall_mem_append.mpr ⟨extent_writeLines _ _ _ _, ?_⟩
      simp [RunStep.extent]
  | unwritten hall hline =>
      rw [List.append_nil]
      exact .inr ⟨nofun, hscan⟩

/-- A run that looks whether it was stopped has not written all lines at once. -/
theorem extent_of_scan_append {pace : Pace} {lines new : List Text} {done rest : List RunStep}
    (h : scan pace lines ++ [.writeAll new, .complete] = done ++ .heedStop :: rest) :
    ∀ step ∈ done, step.extent = 0 := by
  have hdone : done <+: scan pace lines ++ [.writeAll new, .complete] := ⟨_, h.symm⟩
  rcases prefix_append_cases hdone with hscan | ⟨written, -, rfl⟩
  · intro step hstep
    exact RunStep.extent_of_quiet (quiet_scan pace lines step (hscan.subset hstep))
  · rw [List.append_assoc, List.append_cancel_left_eq] at h
    have hheeds : RunStep.heedStop ∈ [RunStep.writeAll new, .complete] := by simp [h]
    simp at hheeds

end FileRun

namespace Desk

variable {limits : Limits} {pace : Pace} {d : Desk}

/-- A run over the lines of a document carries out its plan and reports what the plan says, or it is
told to stop, gives up where it looks whether it was, and reports no change. -/
theorem formatFile_performed {ov : Overrides} {steps : List RunStep} {changed : Bool}
    (hlines : d.document.lines ≠ [])
    (hplan : FileRun.plan (formatter limits pace) ov d.document.lines = steps ++ [.finish changed])
    (hfinish : ∀ changed, .finish changed ∉ steps) (stopBefore : Option Nat) :
    let f := formatter limits pace
    let run := f.formatFile ov (d.document.lines.map some) stopBefore d
    (run.result = .ok changed ∧
        run.state.document.content = (FileRun.performed f steps d.document).content) ∨
      (run.result = .ok false ∧ ∃ done rest, steps = done ++ .heedStop :: rest ∧
        run.state.document.content = (FileRun.performed f done d.document).content) := by
  intro f run
  have hbegin := Progress.view_begin (discreet_content limits pace) d.document.lines.length d
  rw [show run = _ from Formatter.formatFile_eq .., FileRun.startFile_eq,
    if_neg (by simpa using hlines), hplan]
  simp only [FileRun.content_performed, ← hbegin]
  exact (FileRun.carryThrough_cases (worksOn_formatter limits pace) hfinish
    (Nat.le_refl _)).imp_right And.right

/-- A run over the lines of a document replaces them all at once and reports a change, or it
replaces some of them, one after the other. -/
theorem formatFile_cases (limits : Limits) (pace : Pace) (ov : Overrides)
    (stopBefore : Option Nat) {d : Desk} (hlines : d.document.lines ≠ []) :
    let run := (formatter limits pace).formatFile ov (d.document.lines.map some) stopBefore d
    ((.replaceAll ∉ limits.lacks ∧ run.result = .ok true) ∧
        run.state.document.content = (d.document.allFormatted ov).content) ∨
      (¬(.replaceAll ∉ limits.lacks ∧ run.result = .ok true) ∧
        ∃ writes, run.state.document.content = (d.document.replaceLines writes).content) := by
  intro run
  obtain ⟨steps, changed, hplan, hfinish, hsteps⟩ :=
    FileRun.exists_plan_cases (formatter limits pace) ov d.document.lines
  -- steps that replace lines one by one, behind which the run may be over
  have hlinewise : ∀ done, (∀ step ∈ done, step.extent = 0) →
      run.state.document.content =
        (FileRun.performed (formatter limits pace) done d.document).content →
      ∃ writes, run.state.document.content = (d.document.replaceLines writes).content := by
    intro done hdone hcontent
    obtain ⟨writes, hwrites⟩ := FileRun.exists_replaceLines_performed hdone d.document
    exact ⟨writes, hcontent.trans (congrArg _ hwrites)⟩
  rw [FileRun.isSome_replaceAll?] at hsteps
  rcases formatFile_performed hlines hplan hfinish stopBefore with
    ⟨hresult, hcontent⟩ | ⟨hresult, done, rest, hsplit, hcontent⟩
  · rcases hsteps with ⟨hoffered, rfl, rfl⟩ | ⟨hnot, hextent⟩
    · refine .inl ⟨⟨hoffered, hresult⟩, ?_⟩
      rw [hcontent, FileRun.performed_append, FileRun.performed_of_quiet (FileRun.quiet_scan _ _)]
      exact congrArg Document.content (if_pos (FileRun.isSome_replaceAll?.mpr hoffered))
    · refine .inr ⟨fun h => hnot ⟨h.1, ?_⟩, hlinewise steps hextent hcontent⟩
      exact Except.ok.inj (hresult.symm.trans h.2)
  · have hfalse : run.result ≠ .ok true := fun h =>
      Bool.false_ne_true (Except.ok.inj (hresult.symm.trans h))
    refine .inr ⟨fun h => hfalse h.2, hlinewise done ?_ hcontent⟩
    rcases hsteps with ⟨-, -, hall⟩ | ⟨-, hextent⟩
    · exact FileRun.extent_of_scan_append (hall.symm.trans hsplit)
    · intro step hstep
      exact hextent step (hsplit ▸ List.mem_append_left _ hstep)

/-! ## What formatting a single line writes -/

theorem formatter_replaceSelecting? :
    (formatter limits pace).host.replaceSelecting? =
      if limits.lacks.contains .replaceSelecting then none
      else some fun n line s d =>
        ⟨.ok (), { d with document := d.document.replaceSelecting n line s }⟩ := by
  rw [formatter]
  split <;> simp only [Host.within, Host.without, Host.bare, Document.host] <;> split <;> rfl

theorem formatter_currentLine? :
    (formatter limits pace).host.currentLine? =
      if limits.lacks.contains .currentLine || limits.lacks.contains .lineAt then none
      else some fun d => d.document.currentLine.map fun c =>
        { c with selection := if limits.bare then none else c.selection } := by
  rw [formatter]
  split <;> simp only [Host.within, Host.without, Host.bare, Document.host] <;> split <;>
    simp [*]

/-- The current line that a formatter is told is the line of the cursor. -/
theorem of_formatter_currentLine? {current : Desk → Option CurrentLine} {c : CurrentLine}
    (hcurrent : (formatter limits pace).host.currentLine? = some current)
    (hc : current d = some c) : c.number = d.document.cursor := by
  rw [formatter_currentLine?, Option.ite_none_left_eq_some] at hcurrent
  obtain rfl := Option.some.inj hcurrent.2
  obtain ⟨c', hc', rfl⟩ := Option.map_eq_some_iff.mp hc
  obtain ⟨line, -, rfl⟩ := Option.map_eq_some_iff.mp hc'
  rfl

/-- Formatting a line replaces it or nothing, or it replaces it with a selection that is within the
new line. -/
theorem putBack_cases (limits : Limits) (pace : Pace) (ov : Overrides) (n : Int) (line : Text)
    (sel : Option Selection) (d : Desk) :
    let d' := ((formatter limits pace).putBack ov n line sel d).state
    (∃ writes, d'.document = d.document.replaceLines writes) ∨
      ∃ s ∈ sel, formatIndented ov line ≠ line ∧
        d'.document =
          d.document.replaceSelecting n (formatIndented ov line) (s.follow ov line) := by
  intro d'
  have hd' : d' = _ := congrArg Attempt.state (Formatter.putBack.eq_def ..)
  dsimp only at hd'
  split at hd'
  next => exact .inl ⟨[], congrArg document hd'⟩
  next hnew =>
    split at hd'
    next s replace hr =>
      rw [formatter_replaceSelecting?, Option.ite_none_left_eq_some] at hr
      obtain rfl := Option.some.inj hr.2
      exact .inr ⟨s, rfl, hnew, congrArg document hd'⟩
    next replace hr _ =>
      rw [formatter_replaceLine?, Option.ite_none_left_eq_some] at hr
      obtain rfl := Option.some.inj hr.2
      exact .inl ⟨[(n, _)], congrArg document hd'⟩
    next => exact .inl ⟨[], congrArg document hd'⟩

theorem formatLineAt_cases (limits : Limits) (pace : Pace) (ov : Overrides) (n : Int) (d : Desk) :
    ∃ writes, ((formatter limits pace).formatLineAt ov n d).state.document =
      d.document.replaceLines writes := by
  rw [Formatter.formatLineAt]
  split
  · exact ⟨[], rfl⟩
  · split
    · exact ⟨[], rfl⟩
    next line _ =>
      rcases putBack_cases limits pace ov n line none d with hwrites | ⟨s, hs, -⟩
      · exact hwrites
      · cases hs

theorem formatCurrent_cases (limits : Limits) (pace : Pace) (ov : Overrides) (d : Desk) :
    let d' := ((formatter limits pace).formatCurrent ov d).state
    (∃ writes, d'.document = d.document.replaceLines writes) ∨
      ∃ line s, s.Within line.length ∧
        d'.document = d.document.replaceSelecting d.document.cursor line s := by
  intro d'
  have hd' : d' = _ := congrArg Attempt.state (Formatter.formatCurrent.eq_def ..)
  split at hd'
  · exact .inl ⟨[], congrArg document hd'⟩
  next current hcurrent =>
    split at hd'
    · exact .inl ⟨[], congrArg document hd'⟩
    next c hc =>
      rcases putBack_cases limits pace ov c.number c.text _ d with ⟨writes, h⟩ | ⟨s, -, hnew, h⟩
      · exact .inl ⟨writes, (congrArg document hd').trans h⟩
      · refine .inr ⟨_, _, Selection.within_follow hnew s, ?_⟩
        rw [← of_formatter_currentLine? hcurrent hc]
        exact (congrArg document hd').trans h

/-! ## Courses of jobs -/

/-- What is to be formatted. -/
inductive Part where
  | current
  | line (n : Int)
  /-- All lines, unless the run is told to stop before it is done. -/
  | file (stopBefore : Option Nat)
deriving DecidableEq, Repr

/-- Something that a formatter is to do with the document. -/
structure Job where
  limits : Limits := {}
  pace : Pace := {}
  ov : Overrides := {}
  part : Part

/-- A run over all lines of the document. -/
def Job.fileRun (j : Job) (stopBefore : Option Nat) (d : Desk) : Formatter.FileResult Desk :=
  (formatter j.limits j.pace).formatFile j.ov (d.document.lines.map some) stopBefore d

def Job.run (j : Job) (d : Desk) : Desk :=
  match j.part with
  | .current => ((formatter j.limits j.pace).formatCurrent j.ov d).state
  | .line n => ((formatter j.limits j.pace).formatLineAt j.ov n d).state
  | .file stopBefore => (j.fileRun stopBefore d).state

/-- The desk after some jobs, one after the other. -/
def after (jobs : List Job) (d : Desk) : Desk := jobs.foldl (fun d j => j.run d) d

/-- The job is a run that replaces all lines at once, and it reports a change. -/
def Job.ReplacesAll (j : Job) (d : Desk) : Prop :=
  ∃ stopBefore, j.part = .file stopBefore ∧
    .replaceAll ∉ j.limits.lacks ∧ (j.fileRun stopBefore d).result = .ok true

/-- If the job replaces all lines at once, the selection ends within what formatting makes of the
cursor's line. -/
def Job.Fits (j : Job) (d : Desk) : Prop := j.ReplacesAll d → d.document.SelectionFits j.ov

/-- What a job can do to the document. -/
theorem Job.run_cases (j : Job) (hlines : d.document.lines ≠ []) :
    (j.ReplacesAll d ∧ (j.run d).document.content = (d.document.allFormatted j.ov).content) ∨
      (¬j.ReplacesAll d ∧
        ((∃ writes, (j.run d).document.content = (d.document.replaceLines writes).content) ∨
          ∃ line s, s.Within line.length ∧ (j.run d).document.content =
            (d.document.replaceSelecting d.document.cursor line s).content)) := by
  obtain ⟨limits, pace, ov, part⟩ := j
  cases part with
  | current =>
      refine .inr ⟨?_, ?_⟩
      · rintro ⟨_, ⟨⟩, _⟩
      · rcases formatCurrent_cases limits pace ov d with ⟨writes, h⟩ | ⟨line, s, hs, h⟩
        · exact .inl ⟨writes, congrArg _ h⟩
        · exact .inr ⟨line, s, hs, congrArg _ h⟩
  | line n =>
      obtain ⟨writes, h⟩ := formatLineAt_cases limits pace ov n d
      refine .inr ⟨?_, .inl ⟨writes, congrArg _ h⟩⟩
      rintro ⟨_, ⟨⟩, _⟩
  | file stopBefore =>
      rcases formatFile_cases limits pace ov stopBefore hlines with ⟨hall, h⟩ | ⟨hnot, h⟩
      · exact .inl ⟨⟨stopBefore, rfl, hall⟩, h⟩
      · refine .inr ⟨?_, .inl h⟩
        rintro ⟨_, ⟨⟩, hall⟩
        exact hnot hall

/-- The cursor stays on a line. -/
theorem Job.onLine_run (j : Job) (h : d.document.OnLine) : (j.run d).document.OnLine := by
  rcases j.run_cases h.ne_nil with
    ⟨-, hcontent⟩ | ⟨-, ⟨writes, hcontent⟩ | ⟨line, s, -, hcontent⟩⟩
  · exact (Document.onLine_congr hcontent).mpr (h.allFormatted j.ov)
  · exact (Document.onLine_congr hcontent).mpr (h.replaceLines writes)
  · exact (Document.onLine_congr hcontent).mpr (h.replaceSelecting _ line s)

/-- A job leaves a document in place exactly if it fits. -/
theorem Job.inPlace_run_iff (j : Job) (h : d.document.InPlace) :
    (j.run d).document.InPlace ↔ j.Fits d := by
  rcases j.run_cases h.onLine.ne_nil with
    ⟨hall, hcontent⟩ | ⟨hnot, ⟨writes, hcontent⟩ | ⟨line, s, hs, hcontent⟩⟩
  · rw [Document.inPlace_congr hcontent, h.allFormatted_iff, Fits, forall_prop_of_true hall]
  · rw [Document.inPlace_congr hcontent]
    exact iff_of_true (h.replaceLines writes) fun hall => absurd hall hnot
  · rw [Document.inPlace_congr hcontent]
    exact iff_of_true (h.replaceSelecting hs) fun hall => absurd hall hnot

theorem onLine_after (h : d.document.OnLine) (jobs : List Job) :
    (d.after jobs).document.OnLine := by
  induction jobs generalizing d with
  | nil => exact h
  | cons j jobs ih => exact ih (j.onLine_run h)

theorem inPlace_after (h : d.document.InPlace) {jobs : List Job}
    (hfits : ∀ done j, done ++ [j] <+: jobs → j.Fits (d.after done)) :
    (d.after jobs).document.InPlace := by
  induction jobs generalizing d with
  | nil => exact h
  | cons j jobs ih =>
      have hfirst : j.Fits d := hfits [] j (List.prefix_append [j] jobs)
      refine ih ((j.inPlace_run_iff h).mpr hfirst) fun done j' hdone => ?_
      exact hfits (j :: done) j' ((List.prefix_cons_inj j).mpr hdone)

/-- In a course of jobs the cursor is on a line all along, and the document is in place all along
exactly if each job fits the desk that it finds. -/
theorem inPlace_iff_fits (h : d.document.InPlace) (jobs : List Job) :
    (∀ done, done <+: jobs → (d.after done).document.OnLine) ∧
      ((∀ done, done <+: jobs → (d.after done).document.InPlace) ↔
        ∀ done j, done ++ [j] <+: jobs → j.Fits (d.after done)) := by
  refine ⟨fun done _ => onLine_after h.onLine done, fun hplace done j hdone => ?_,
    fun hfits done hdone => ?_⟩
  · have hbefore := hplace done ((List.prefix_append done [j]).trans hdone)
    have hbehind := hplace (done ++ [j]) hdone
    rw [after, List.foldl_append] at hbehind
    exact (j.inPlace_run_iff hbefore).mp hbehind
  · exact inPlace_after h fun done' j hfront => hfits done' j (hfront.trans hdone)

/-- A task with a space too many, and a selection in it. -/
def spacedTask (s : Selection) : Desk := { document := .ofLines ["- [ ]  a".toList] 0 (some s) }

/-- A caret in the front of the line is in place when a run over the whole file has taken the space
out, and when the line is formatted then. -/
theorem inPlace_iff_fits_caretInFront :
    let d := spacedTask (.caret 5)
    let jobs : List Job := [{ part := .file none }, { part := .current }]
    d.document.InPlace ∧ (d.after jobs).document.lines = ["- [ ] a".toList] ∧
      (∀ done j, done ++ [j] <+: jobs → j.Fits (d.after done)) ∧
      ∀ done, done <+: jobs → (d.after done).document.InPlace := by
  intro d jobs
  have hplace : d.document.InPlace := by decide +kernel
  have hfits : ∀ done j, done ++ [j] <+: jobs → j.Fits (d.after done) := by
    intro done j hdone
    match done, hdone with
    | [], hdone =>
        obtain ⟨rfl, -⟩ := List.cons_prefix_cons.mp hdone
        exact fun _ => by decide +kernel
    | [_], hdone =>
        obtain ⟨rfl, hrest⟩ := List.cons_prefix_cons.mp hdone
        obtain ⟨rfl, -⟩ := List.cons_prefix_cons.mp hrest
        rintro ⟨_, ⟨⟩, _⟩
    | _ :: _ :: _, hdone =>
        have hlength := hdone.length_le
        simp [jobs] at hlength
  exact ⟨hplace, by decide +kernel, hfits, (inPlace_iff_fits hplace jobs).2.mpr hfits⟩

/-- A caret at the end of the line is left behind the end when the run makes the line shorter. -/
theorem selection_left_behind :
    let d := spacedTask (.caret 8)
    let d' := Job.run { part := .file none } d
    d.document.InPlace ∧ d'.document.lines = ["- [ ] a".toList] ∧
      d'.document.selection = some (.caret 8) ∧ ¬d'.document.InPlace := by
  decide +kernel

end Desk

end TaskLine
