import TaskLine.Proofs.Formatter.Extent

/-!
# What a plan writes

The steps of a plan, carried out one after the other on a document (`performed`), tell what a run
does to it: whatever the clock shows and whatever is told of progress, a run whose state has a
document in it (`Formatter.WorksOn`) leaves that as the steps behind it do, where it pauses
(`exists_of_paused`) and where it ends (`carryThrough_cases`). Of a plan itself only the part behind
the scan of the lines writes anything (`Closing`), and if the host takes the lines one by one they
are put in place from the first to the last (`written_writeLines`, `exists_written_of_prefix`).
-/

namespace TaskLine

/-! ## Documents that are worked on -/

/-- There is a document in the state of a formatter. It takes what it is asked to write, and what it
holds is left alone by the clock and by what is told of progress. -/
structure Formatter.WorksOn {σ : Type} (f : Formatter σ) (document : σ → Document) : Prop where
  discreet : f.Discreet fun s => (document s).content
  line : ∀ replace ∈ f.host.replaceLine?, ∀ n line s,
    ∃ s', replace n line s = ⟨.ok (), s'⟩ ∧ document s' = (document s).replaceLine n line
  all : ∀ replace ∈ f.host.replaceAll?, ∀ lines s,
    ∃ s', replace lines s = ⟨.ok (), s'⟩ ∧ document s' = (document s).replaceAll lines

theorem Desk.worksOn_formatter (limits : Limits) (pace : Pace) :
    (formatter limits pace).WorksOn document where
  discreet := discreet_content limits pace
  line replace hr n line d := by
    rw [formatter_replaceLine?, Option.mem_def, Option.ite_none_left_eq_some] at hr
    obtain rfl := Option.some.inj hr.2
    exact ⟨_, rfl, rfl⟩
  all replace hr lines d := by
    rw [formatter_replaceAll?, Option.mem_def, Option.ite_none_left_eq_some] at hr
    obtain rfl := Option.some.inj hr.2
    exact ⟨_, rfl, rfl⟩

namespace RunStep

variable {σ : Type}

/-- What a step makes of a document. -/
def carriedOut (f : Formatter σ) : RunStep → Document → Document
  | .writeLine n line, d => if f.host.replaceLine?.isSome then d.replaceLine n line else d
  | .writeAll lines, d => if f.host.replaceAll?.isSome then d.replaceAll lines else d
  | _, d => d

/-- Whether a step writes nothing. -/
def quiet : RunStep → Bool
  | .writeLine .. | .writeAll _ => false
  | _ => true

variable {f : Formatter σ} {step : RunStep}

theorem carriedOut_of_quiet (h : step.quiet = true) (d : Document) :
    step.carriedOut f d = d := by
  cases step with
  | writeLine n line => cases h
  | writeAll lines => cases h
  | _ => rfl

theorem content_carriedOut (d : Document) :
    (step.carriedOut f d).content = step.carriedOut f d.content := by
  cases step with
  | writeLine n line =>
      simp only [carriedOut]
      split
      · show (if d.has n then _ else _ : Document).content = if d.content.has n then _ else _
        have hhas : d.content.has n = d.has n := rfl
        rw [hhas]
        split <;> rfl
      · rfl
  | writeAll lines =>
      simp only [carriedOut]
      split <;> rfl
  | _ => rfl

theorem lines_carriedOut (d : Document) :
    (step.carriedOut f d).lines = step.written f d.lines := by
  cases step with
  | writeLine n line =>
      simp only [carriedOut, written]
      split
      · exact Document.lines_replaceLine n line d
      · rfl
  | writeAll lines =>
      simp only [carriedOut, written]
      split
      · exact Document.lines_replaceAll lines d
      · rfl
  | _ => rfl

end RunStep

namespace FileRun

section Steps

variable {σ : Type} {f : Formatter σ} {steps : List RunStep}

/-- What some steps make of a document, one after the other. -/
def performed (f : Formatter σ) (steps : List RunStep) (d : Document) : Document :=
  steps.foldl (fun d step => step.carriedOut f d) d

/-- What some steps make of the lines of a host. -/
def writtenBy (f : Formatter σ) (steps : List RunStep) (lines : List Text) : List Text :=
  steps.foldl (fun lines step => step.written f lines) lines

theorem performed_append (steps steps' : List RunStep) (d : Document) :
    performed f (steps ++ steps') d = performed f steps' (performed f steps d) :=
  List.foldl_append

theorem writtenBy_append (steps steps' : List RunStep) (lines : List Text) :
    writtenBy f (steps ++ steps') lines = writtenBy f steps' (writtenBy f steps lines) :=
  List.foldl_append

theorem content_performed (steps : List RunStep) (d : Document) :
    (performed f steps d).content = performed f steps d.content := by
  induction steps generalizing d with
  | nil => rfl
  | cons step steps ih => exact (ih _).trans (congrArg _ (RunStep.content_carriedOut d))

theorem performed_of_quiet (h : ∀ step ∈ steps, step.quiet = true) (d : Document) :
    performed f steps d = d := by
  induction steps with
  | nil => rfl
  | cons step steps ih =>
      have hstep := RunStep.carriedOut_of_quiet (f := f) (h step List.mem_cons_self) d
      show performed f steps (step.carriedOut f d) = d
      rw [hstep]
      exact ih fun step hmem => h step (List.mem_cons_of_mem _ hmem)

theorem lines_performed (steps : List RunStep) (d : Document) :
    (performed f steps d).lines = writtenBy f steps d.lines := by
  induction steps generalizing d with
  | nil => rfl
  | cons step steps ih =>
      show (performed f steps (step.carriedOut f d)).lines = _
      rw [ih, RunStep.lines_carriedOut]
      rfl

theorem writtenBy_of_quiet (h : ∀ step ∈ steps, step.quiet = true) (lines : List Text) :
    writtenBy f steps lines = lines := by
  rw [← lines_performed steps { lines }, performed_of_quiet h]

end Steps

/-! ## Runs -/

section Runs

variable {σ : Type} {f : Formatter σ} {document : σ → Document} {step : RunStep}
  {rest steps : List RunStep} {p : Progress} {s : σ}

/-- A run on a document gets past every step but a pause, its end and a look at whether it was
stopped when it was, and the document is what the step makes of it. -/
theorem exists_carriedOut (hf : f.WorksOn document) {stopped : Bool} (rest : List RunStep)
    (p : Progress) (s : σ) (h : step.passes = true) (hheeds : stopped = true → step ≠ .heedStop) :
    ∃ p' s', (document s').content = step.carriedOut f (document s).content ∧
      proceed f stopped (step :: rest) p s = proceed f stopped rest p' s' := by
  cases step with
  | appear => exact ⟨_, _, Progress.view_appear hf.discreet s, rfl⟩
  | advance n => exact ⟨_, _, Progress.view_advance hf.discreet n s, rfl⟩
  | complete => exact ⟨_, _, Progress.view_complete hf.discreet s, rfl⟩
  | heedStop => exact ⟨p, s, rfl, if_neg fun hstopped => hheeds hstopped rfl⟩
  | writeLine n line =>
      rw [← RunStep.content_carriedOut, proceed, RunStep.carriedOut]
      cases hr : f.host.replaceLine? with
      | none => exact ⟨p, s, rfl, rfl⟩
      | some replace =>
          obtain ⟨s', hwrite, hs'⟩ := hf.line replace hr n line s
          dsimp only
          rw [hwrite]
          exact ⟨p, s', congrArg _ hs', rfl⟩
  | writeAll new =>
      rw [← RunStep.content_carriedOut, proceed, RunStep.carriedOut]
      cases hr : f.host.replaceAll? with
      | none => exact ⟨p, s, rfl, rfl⟩
      | some replace =>
          obtain ⟨s', hwrite, hs'⟩ := hf.all replace hr new s
          dsimp only
          rw [hwrite]
          exact ⟨p, s', congrArg _ hs', rfl⟩
  | pause => cases h
  | finish changed => cases h

/-- How many stretches of a run are still to come. -/
def Outcome.stretchesLeft {σ : Type} : Outcome σ → Nat
  | .paused run _ => run.pauses + 1
  | .ended .. | .failed .. => 0

theorem stretchesLeft_proceed_le {σ : Type} (f : Formatter σ) (stopped : Bool)
    (steps : List RunStep) (p : Progress) (s : σ) :
    (proceed f stopped steps p s).stretchesLeft ≤ steps.count .pause := by
  cases houtcome : proceed f stopped steps p s with
  | paused run s' =>
      obtain ⟨⟨done, hdone⟩, -⟩ := exists_of_proceed houtcome
      rw [hdone, List.count_append, List.count_cons_self]
      exact Nat.le_add_left ..
  | ended changed s' => exact Nat.zero_le _
  | failed e s' => exact Nat.zero_le _

/-- What every stretch of a run keeps is kept by the run, for as many stretches as are left of it.
-/
theorem carryThrough_keeps {P : Outcome σ → Prop} {stopped : Nat → Bool} {fuel i : Nat}
    {o : Outcome σ} (hresume : ∀ i run s, P (.paused run s) → P (run.resume f (stopped i) s))
    (ho : P o) (hfuel : o.stretchesLeft ≤ fuel) :
    (∃ changed, P (.ended changed (f.carryThrough stopped fuel i o).state)) ∨
      ∃ e, P (.failed e (f.carryThrough stopped fuel i o).state) := by
  induction fuel generalizing i o with
  | zero =>
      cases o with
      | paused run s => exact absurd hfuel (Nat.not_succ_le_zero _)
      | ended changed s => exact .inl ⟨changed, ho⟩
      | failed e s => exact .inr ⟨e, ho⟩
  | succ fuel ih =>
      cases o with
      | paused run s =>
          have hleft := stretchesLeft_proceed_le f (stopped (i + 1)) run.rest run.progress s
          exact ih (hresume (i + 1) run s ho)
            (Nat.le_trans hleft (Nat.le_of_succ_le_succ hfuel))
      | ended changed s => exact .inl ⟨changed, ho⟩
      | failed e s => exact .inr ⟨e, ho⟩

/-- A run carries out the steps of its plan and ends as the plan says, unless it is told to stop and
gives up where it looks whether it was. -/
theorem carryThrough_cases (hf : f.WorksOn document) {stopped : Nat → Bool} {changed : Bool}
    {fuel i : Nat} (hsteps : ∀ changed, .finish changed ∉ steps)
    (hfuel : (proceed f (stopped i) (steps ++ [.finish changed]) p s).stretchesLeft ≤ fuel) :
    let r := f.carryThrough stopped fuel i
      (proceed f (stopped i) (steps ++ [.finish changed]) p s)
    (r.result = .ok changed ∧
        (document r.state).content = performed f steps (document s).content) ∨
      ((∃ j, stopped j = true) ∧ r.result = .ok false ∧
        ∃ done rest, steps = done ++ .heedStop :: rest ∧
          (document r.state).content = performed f done (document s).content) := by
  have hclose := fun (p : Progress) s => Progress.view_close (p := p) hf.discreet s
  -- a pause takes one of the stretches that are left, every other step none
  induction steps generalizing fuel i p s with
  | nil => cases fuel <;> exact .inl ⟨rfl, hclose p s⟩
  | cons step rest ih =>
      have hrest : ∀ changed, .finish changed ∉ rest := fun changed hmem =>
        hsteps changed (List.mem_cons_of_mem _ hmem)
      rw [List.cons_append] at hfuel ⊢
      by_cases hheeds : stopped i = true ∧ step = .heedStop
      · obtain ⟨hstopped, rfl⟩ := hheeds
        rw [proceed, if_pos hstopped]
        refine .inr ⟨⟨i, hstopped⟩, ?_⟩
        cases fuel <;> exact ⟨rfl, [], rest, rfl, hclose p s⟩
      by_cases hpasses : step.passes
      · obtain ⟨p', s', hcontent, hproceed⟩ :=
          exists_carriedOut hf (rest ++ [.finish changed]) p s hpasses
            fun hstopped hstep => hheeds ⟨hstopped, hstep⟩
        rw [hproceed] at hfuel ⊢
        have hdone := ih (i := i) hrest hfuel
        rw [hcontent] at hdone
        rcases hdone with hended | ⟨hstop, hresult, done, behind, hsplit, hd⟩
        · exact .inl hended
        · exact .inr ⟨hstop, hresult, step :: done, behind, congrArg (step :: ·) hsplit, hd⟩
      · cases step with
        | pause =>
            cases fuel with
            | zero => exact absurd hfuel (Nat.not_succ_le_zero _)
            | succ fuel =>
                have hleft : (rest ++ [RunStep.finish changed]).count RunStep.pause ≤ fuel :=
                  Nat.le_of_succ_le_succ hfuel
                rcases ih (i := i + 1) hrest
                    (Nat.le_trans (stretchesLeft_proceed_le f (stopped (i + 1)) _ p s) hleft)
                  with hended | ⟨hstop, hresult, done, behind, hsplit, hd⟩
                · exact .inl hended
                · exact .inr ⟨hstop, hresult, .pause :: done, behind,
                    congrArg (RunStep.pause :: ·) hsplit, hd⟩
        | finish changed' => exact absurd List.mem_cons_self (hsteps changed')
        | _ => cases hpasses rfl

/-- A run that nobody stops carries out the steps of its plan and ends as the plan says. -/
theorem carryThrough_unstopped (hf : f.WorksOn document) (changed : Bool) {fuel i : Nat}
    (hsteps : ∀ changed, .finish changed ∉ steps)
    (hfuel : (proceed f false (steps ++ [.finish changed]) p s).stretchesLeft ≤ fuel) :
    let r := f.carryThrough (fun _ => false) fuel i
      (proceed f false (steps ++ [.finish changed]) p s)
    r.result = .ok changed ∧ (document r.state).content = performed f steps (document s).content :=
  (carryThrough_cases hf hsteps hfuel).resolve_right nofun

end Runs

section Desks

variable {limits : Desk.Limits} {pace : Pace} {rest steps : List RunStep} {run : FileRun}
  {p : Progress} {d d' : Desk}

/-- A run that pauses has carried out the steps before the pause. -/
theorem exists_of_paused
    (hpaused : proceed (Desk.formatter limits pace) false steps p d = .paused run d') :
    ∃ done, steps = done ++ .pause :: run.rest ∧
      d'.document.content = performed (Desk.formatter limits pace) done d.document.content := by
  induction steps generalizing p d with
  | nil => cases hpaused
  | cons step rest ih =>
      by_cases hpasses : step.passes
      · obtain ⟨p', d'', hcontent, hproceed⟩ :=
          exists_carriedOut (Desk.worksOn_formatter limits pace) rest p d hpasses
            fun h : false = true => nomatch h
        rw [hproceed] at hpaused
        obtain ⟨done, hdone, hd'⟩ := ih hpaused
        refine ⟨step :: done, congrArg (step :: ·) hdone, ?_⟩
        rw [hd', hcontent]
        rfl
      · cases step with
        | pause =>
            obtain ⟨rfl, rfl⟩ := Outcome.paused.inj hpaused
            exact ⟨[], rfl, rfl⟩
        | finish changed => cases hpaused
        | _ => cases hpasses rfl

theorem isSome_replaceAll? : (Desk.formatter limits pace).host.replaceAll?.isSome ↔
    .replaceAll ∉ limits.lacks := by
  simp only [Desk.formatter_replaceAll?, List.contains_iff_mem]
  split <;> simpa

theorem isSome_replaceLine? : (Desk.formatter limits pace).host.replaceLine?.isSome ↔
    .replaceLine ∉ limits.lacks := by
  simp only [Desk.formatter_replaceLine?, List.contains_iff_mem]
  split <;> simpa

/-- A run on a desk that nobody stops carries out the steps of its plan and ends as the plan says.
-/
theorem carryThrough_performed {changed : Bool} {fuel i : Nat}
    (hsteps : ∀ changed, .finish changed ∉ steps)
    (hfuel : (proceed (Desk.formatter limits pace) false (steps ++ [.finish changed]) p
      d).stretchesLeft ≤ fuel) :
    let r := (Desk.formatter limits pace).carryThrough (fun _ => false) fuel i
      (proceed (Desk.formatter limits pace) false (steps ++ [.finish changed]) p d)
    r.result = .ok changed ∧ r.state.document.content =
      performed (Desk.formatter limits pace) steps d.document.content :=
  carryThrough_unstopped (Desk.worksOn_formatter limits pace) _ hsteps hfuel

end Desks

/-! ## Plans -/

theorem map_eq_self_iff {α : Type} {f : α → α} {l : List α} : l.map f = l ↔ ∀ a ∈ l, f a = a := by
  have hsame := List.map_inj_left (l := l) (f := f) (g := id)
  rwa [List.map_id] at hsame

section Plans

variable {σ : Type} {f : Formatter σ} {ov : Overrides} {lines front old new : List Text}
  {total : Nat} {done rest : List RunStep}

theorem prefix_append_cases {α : Type} {p l l' : List α} (h : p <+: l ++ l') :
    p <+: l ∨ ∃ q, q <+: l' ∧ p = l ++ q := by
  rcases List.prefix_or_prefix_of_prefix h (List.prefix_append l l') with h' | h'
  · exact .inl h'
  · obtain ⟨q, rfl⟩ := h'
    exact .inr ⟨q, (List.prefix_append_right_inj l).mp h, rfl⟩

theorem quiet_scanSteps (pace : Pace) (i : Nat) : ∀ step ∈ scanSteps pace i, step.quiet = true := by
  rw [scanSteps]
  split <;> split <;> simp [RunStep.quiet]

/-- The part of a plan that comes before anything is written. -/
def scan (pace : Pace) (lines : List Text) : List RunStep :=
  (List.range lines.length).flatMap (scanSteps pace) ++ [.heedStop]

theorem quiet_scan (pace : Pace) (lines : List Text) :
    ∀ step ∈ scan pace lines, step.quiet = true := by
  intro step hstep
  rcases List.mem_append.mp hstep with hscan | hheed
  · obtain ⟨i, -, hscan⟩ := List.mem_flatMap.mp hscan
    exact quiet_scanSteps pace i step hscan
  · rw [List.mem_singleton.mp hheed]
    rfl

theorem plan_eq (f : Formatter σ) (ov : Overrides) (lines : List Text) :
    plan f ov lines = scan f.pace lines ++
      if lines.map (formatIndented ov) = lines then [.complete, .finish false]
      else applySteps f lines (lines.map (formatIndented ov)) := by
  rw [plan, scan, List.append_assoc]
  rfl

/-- What is done behind a line once it has been written. -/
def rests (pace : Pace) (total i : Nat) : List RunStep :=
  if pace.pausesAfter i then [.pause, .heedStop, .appear, .advance (min (i + 1) total)] else []

theorem quiet_rests (pace : Pace) (total i : Nat) :
    ∀ step ∈ rests pace total i, step.quiet = true := by
  rw [rests]
  split <;> simp [RunStep.quiet]

theorem writeSteps_eq (pace : Pace) (total i : Nat) (old new : Text) :
    writeSteps pace total i old new =
      (if new = old then [] else [.writeLine i new]) ++ rests pace total i := rfl

theorem finish_notMem_scan (pace : Pace) (lines : List Text) (changed : Bool) :
    .finish changed ∉ scan pace lines := by
  simp only [scan, scanSteps, List.mem_append, List.mem_flatMap, List.mem_singleton, reduceCtorEq,
    or_false, not_exists, not_and, not_or]
  intro i _
  constructor
  · split <;> simp
  · split <;> simp

theorem finish_notMem_writeLines (pace : Pace) (total i : Nat) (pairs : List (Text × Text))
    (changed : Bool) : .finish changed ∉ writeLines pace total i pairs := by
  induction pairs generalizing i with
  | nil => exact List.not_mem_nil
  | cons pair pairs ih =>
      rw [writeLines, writeSteps_eq, rests, List.mem_append, List.mem_append, not_or, not_or]
      refine ⟨⟨?_, ?_⟩, ih (i + 1)⟩
      · split <;> simp
      · split <;> simp

/-- What a plan does behind its scan, and what it reports: there is nothing to write, all lines are
replaced at once or one by one, or the host takes no lines. -/
inductive Closing (f : Formatter σ) (old new : List Text) : List RunStep → Bool → Prop where
  | unchanged (hnew : new = old) : Closing f old new [.complete] false
  | atOnce (hnew : new ≠ old) (hall : f.host.replaceAll?.isSome) :
    Closing f old new [.writeAll new, .complete] true
  | oneByOne (hnew : new ≠ old) (hall : ¬f.host.replaceAll?.isSome)
    (hline : f.host.replaceLine?.isSome) :
    Closing f old new (writeLines f.pace old.length 0 (old.zip new) ++ [.complete]) true
  | unwritten (hall : ¬f.host.replaceAll?.isSome) (hline : ¬f.host.replaceLine?.isSome) :
    Closing f old new [] false

theorem exists_closing (f : Formatter σ) (ov : Overrides) (lines : List Text) :
    ∃ steps changed, Closing f lines (lines.map (formatIndented ov)) steps changed ∧
      plan f ov lines = (scan f.pace lines ++ steps) ++ [.finish changed] := by
  rw [plan_eq, applySteps]
  by_cases hnew : lines.map (formatIndented ov) = lines
  · exact ⟨_, _, .unchanged hnew, by rw [if_pos hnew, List.append_assoc]; rfl⟩
  rw [if_neg hnew]
  by_cases hall : f.host.replaceAll?.isSome
  · exact ⟨_, _, .atOnce hnew hall, by rw [if_pos hall, List.append_assoc]; rfl⟩
  rw [if_neg hall]
  by_cases hline : f.host.replaceLine?.isSome
  · refine ⟨_, _, .oneByOne hnew hall hline, ?_⟩
    rw [if_pos hline, List.append_assoc, List.append_assoc]
    rfl
  · exact ⟨_, _, .unwritten hall hline, by rw [if_neg hline, List.append_nil]⟩

theorem Closing.finish_notMem {steps : List RunStep} {changed : Bool}
    (h : Closing f old new steps changed) (pace : Pace) (lines : List Text) (changed' : Bool) :
    .finish changed' ∉ scan pace lines ++ steps := by
  rw [List.mem_append, not_or]
  refine ⟨finish_notMem_scan pace lines changed', ?_⟩
  cases h with
  | oneByOne _ _ _ => simp [finish_notMem_writeLines]
  | _ => simp

/-- The first of the lines that are left is put in its place. -/
theorem written_writeLine (hline : f.host.replaceLine?.isSome) (front rest : List Text)
    (old new : Text) :
    writtenBy f (if new = old then [] else [.writeLine front.length new]) (front ++ old :: rest) =
      front ++ new :: rest := by
  by_cases hnew : new = old
  · rw [if_pos hnew, hnew]
    rfl
  · rw [if_neg hnew]
    show (if f.host.replaceLine?.isSome then _ else _) = _
    rw [if_pos hline, List.set_append_right _ _ (Nat.le_refl _), Nat.sub_self, List.set_cons_zero]

theorem written_writeLines (front : List Text) (hline : f.host.replaceLine?.isSome)
    (hlength : old.length = new.length) :
    writtenBy f (writeLines f.pace total front.length (old.zip new)) (front ++ old) =
      front ++ new := by
  induction old generalizing front new with
  | nil =>
      rw [List.length_nil, eq_comm, List.length_eq_zero_iff] at hlength
      rw [hlength]
      rfl
  | cons line old ih =>
      cases new with
      | nil => cases hlength
      | cons line' new =>
          have hrest := ih (front ++ [line']) (Nat.succ.inj hlength)
          rw [List.length_append, List.length_singleton, List.append_assoc, List.singleton_append,
            List.append_assoc, List.singleton_append] at hrest
          rw [List.zip_cons_cons, writeLines, writeSteps_eq, List.append_assoc, writtenBy_append,
            written_writeLine hline, writtenBy_append,
            writtenBy_of_quiet (quiet_rests f.pace total _), hrest]

/-- Where lines are written one by one, those from the first on have been written and the others
have not. -/
theorem exists_written_of_prefix (front : List Text) (hline : f.host.replaceLine?.isSome)
    (hlength : old.length = new.length)
    (hdone : done <+: writeLines f.pace total front.length (old.zip new)) :
    ∃ m, writtenBy f done (front ++ old) = front ++ new.take m ++ old.drop m := by
  -- the line that is next has either not had its turn, or it is done and the rest is left
  induction old generalizing front new done with
  | nil =>
      rw [List.zip_nil_left, writeLines, List.prefix_nil] at hdone
      exact ⟨0, by simp [hdone, writtenBy]⟩
  | cons line old ih =>
      cases new with
      | nil => cases hlength
      | cons line' new =>
          rw [List.zip_cons_cons, writeLines, writeSteps_eq, List.append_assoc] at hdone
          rcases prefix_append_cases hdone with hnone | ⟨behind, hbehind, rfl⟩
          · rcases eq_or_ne done [] with rfl | hsome
            · exact ⟨0, by simp [writtenBy]⟩
            · have hpos : 0 < done.length := List.length_pos_iff.mpr hsome
              have hwhole := hnone.eq_of_length_le (by split <;> (simp; try omega))
              refine ⟨1, ?_⟩
              rw [hwhole, written_writeLine hline]
              simp
          · rw [writtenBy_append, written_writeLine hline]
            rcases prefix_append_cases hbehind with hpart | ⟨later, hlater, rfl⟩
            · refine ⟨1, ?_⟩
              rw [writtenBy_of_quiet fun step hstep =>
                quiet_rests f.pace total front.length step (hpart.subset hstep)]
              simp
            · rw [← List.length_singleton (a := line'), ← List.length_append] at hlater
              obtain ⟨m, hm⟩ := ih (front ++ [line']) (Nat.succ.inj hlength) hlater
              refine ⟨m + 1, ?_⟩
              rw [writtenBy_append, writtenBy_of_quiet (quiet_rests f.pace total _)]
              simpa using hm

end Plans

end FileRun

/-- A run over a whole file is carried through from its start, for as many stretches as are left
then. -/
theorem Formatter.formatFile_eq {σ : Type} (f : Formatter σ) (ov : Overrides)
    (lines : List (Option Text)) (stopBefore : Option Nat) (s : σ) :
    f.formatFile ov lines stopBefore s =
      f.carryThrough (fun i => stopBefore.any fun k => decide (k ≤ i))
        (f.startFile ov lines (stopBefore.any fun k => decide (k ≤ 0)) s).stretchesLeft 0
        (f.startFile ov lines (stopBefore.any fun k => decide (k ≤ 0)) s) := by
  cases stopBefore with
  | none =>
      simp only [formatFile, Option.any_none]
      cases f.startFile ov lines false s <;> rfl
  | some k =>
      simp only [formatFile, Option.any_some]
      cases f.startFile ov lines (decide (k ≤ 0)) s <;> rfl

theorem Formatter.formatFile_none {σ : Type} (f : Formatter σ) (ov : Overrides)
    (lines : List (Option Text)) (s : σ) :
    f.formatFile ov lines none s =
      f.carryThrough (fun _ => false) (f.startFile ov lines false s).stretchesLeft 0
        (f.startFile ov lines false s) := f.formatFile_eq ov lines none s

end TaskLine
