import TaskLine.Proofs.Formatter.Reporting

/-!
# Whether progress goes back

How far a run is, it tells first while it scans the lines and then, if it writes them one by one,
once more from the first line on. So where both happen it may tell that it is less far than it said
before. What is told in the course of a run are some of the positions of its plan, in their order
(`within_proceed`), and with a clock that stands still all of them (`tells_proceed`).
Whatever the clock shows, progress never goes back if all lines are replaced at once; if they are
written one by one, it never does exactly if no position of the scan lies behind the first one of
the writes (`progress_forward_iff`).
-/

namespace TaskLine

/-! ## Positions -/

namespace Record

/-- How far a run was, each time that this was told. -/
def currents (r : Record) : List Nat :=
  r.told.filterMap fun told => match told.2 with
    | .update current _ => some current
    | _ => none

variable (r : Record)

@[simp] theorem currents_read (t : Binary64) : (r.read t).currents = r.currents := rfl

@[simp] theorem currents_tell_start (title : Text) (total : Nat) :
    (r.tell (.start title total)).currents = r.currents := by
  simp [currents]

@[simp] theorem currents_tell_update (current total : Nat) :
    (r.tell (.update current total)).currents = r.currents ++ [current] := by
  simp [currents]

@[simp] theorem currents_tell_finish : (r.tell .finish).currents = r.currents := by
  simp [currents]

end Record

namespace FileRun

/-- The positions that some steps report. -/
def advances (steps : List RunStep) : List Nat :=
  steps.filterMap fun
    | .advance n => some n
    | _ => none

/-- The positions of a scan. -/
def scanned (pace : Pace) (total : Nat) : List Nat :=
  (List.range total).filter fun i => i % pace.chunkSize == 0

/-- The positions at which a run is that writes lines one by one, beginning with that of a number.
-/
def written (pace : Pace) (total i count : Nat) : List Nat :=
  ((List.range' i count).filter pace.pausesAfter).map fun i => min (i + 1) total

theorem advances_append (steps steps' : List RunStep) :
    advances (steps ++ steps') = advances steps ++ advances steps' := List.filterMap_append

theorem advances_scan (pace : Pace) (lines : List Text) :
    advances (scan pace lines) = scanned pace lines.length := by
  have hscan : ∀ is : List Nat, advances (is.flatMap (scanSteps pace)) =
      is.filter fun i => i % pace.chunkSize == 0 := by
    intro is
    induction is with
    | nil => rfl
    | cons i is ih =>
        rw [List.flatMap_cons, advances_append, ih, List.filter_cons, scanSteps]
        split <;> split <;> rfl
  rw [scan, advances_append, hscan]
  exact List.append_nil _

theorem advances_writeLines (pace : Pace) (total i : Nat) (pairs : List (Text × Text)) :
    advances (writeLines pace total i pairs) = written pace total i pairs.length := by
  induction pairs generalizing i with
  | nil => rfl
  | cons pair pairs ih =>
      rw [writeLines, advances_append, ih, written, written, List.length_cons, List.range'_succ,
        List.filter_cons, writeSteps]
      split <;> split <;> rfl

/-- The positions of a plan are those of its scan and, if it writes lines one by one, those of the
lines that are written. -/
theorem advances_plan {σ : Type} (f : Formatter σ) (ov : Overrides) (lines : List Text) :
    advances (plan f ov lines) = scanned f.pace lines.length ++
      if lines.map (formatIndented ov) ≠ lines ∧ ¬f.host.replaceAll?.isSome ∧
        f.host.replaceLine?.isSome then written f.pace lines.length 0 lines.length else [] := by
  obtain ⟨steps, changed, hclosing, hplan⟩ := exists_closing f ov lines
  rw [hplan, advances_append, advances_append, advances_scan, List.append_assoc]
  congr 1
  cases hclosing with
  | unchanged hnew => rw [if_neg fun h => h.1 hnew]; rfl
  | atOnce hnew hall => rw [if_neg fun h => h.2.1 hall]; rfl
  | unwritten hall hline => rw [if_neg fun h => hline h.2.2]; rfl
  | oneByOne hnew hall hline =>
      rw [if_pos ⟨hnew, hall, hline⟩, advances_append, advances_writeLines, List.length_zip,
        List.length_map, Nat.min_self]
      exact (List.append_nil _).trans (List.append_nil _)

theorem pairwise_scanned (pace : Pace) (total : Nat) : (scanned pace total).Pairwise (· ≤ ·) :=
  (List.pairwise_le_range (n := total)).filter _

theorem pairwise_written (pace : Pace) (total i count : Nat) :
    (written pace total i count).Pairwise (· ≤ ·) := by
  have hincreasing : (List.range' i count).Pairwise (· < ·) := List.pairwise_lt_range'
  refine List.pairwise_map.mpr ((hincreasing.filter _).imp fun {i j} hij => ?_)
  exact Nat.le_min.mpr ⟨Nat.le_trans (Nat.min_le_left ..) (Nat.succ_le_succ (Nat.le_of_lt hij)),
    Nat.min_le_right ..⟩

theorem mem_scanned {pace : Pace} {total i : Nat} :
    i ∈ scanned pace total ↔ i < total ∧ pace.chunkSize ∣ i := by
  simp [scanned, Nat.dvd_iff_mod_eq_zero]

theorem mem_written {pace : Pace} {total j : Nat} :
    j ∈ written pace total 0 total ↔
      ∃ k < total, k ≠ 0 ∧ pace.stretch ∣ k ∧ min (k + 1) total = j := by
  simp [written, Pace.pausesAfter, List.mem_range'_1, Nat.dvd_iff_mod_eq_zero, and_assoc]

/-- The lines of a file can be scanned and then written one by one without going back exactly if no
position of the scan lies behind the first of the writes. -/
theorem pairwise_positions_iff (pace : Pace) (total : Nat) :
    (scanned pace total ++ written pace total 0 total ++ [total]).Pairwise (· ≤ ·) ↔
      ∀ i < total, pace.chunkSize ∣ i → i ≤ pace.stretch + 1 := by
  have hscanned : ∀ i ∈ scanned pace total, i ≤ total := fun i hi =>
    Nat.le_of_lt (mem_scanned.mp hi).1
  have hwritten : ∀ j ∈ written pace total 0 total, j ≤ total := by
    intro j hj
    obtain ⟨k, -, -, -, rfl⟩ := mem_written.mp hj
    exact Nat.min_le_right ..
  rw [List.pairwise_append, List.pairwise_append]
  constructor
  · rintro ⟨⟨-, -, hforward⟩, -, -⟩ i hi hdvd
    by_cases hpause : pace.stretch < total
    · -- the first position of the writes is that behind the first pause
      have hfirst : min (pace.stretch + 1) total ∈ written pace total 0 total :=
        mem_written.mpr ⟨_, hpause, pace.stretch_pos.ne', dvd_rfl, rfl⟩
      have hle := hforward i (mem_scanned.mpr ⟨hi, hdvd⟩) _ hfirst
      exact Nat.le_trans hle (Nat.min_le_left ..)
    · omega
  · intro hforward
    refine ⟨⟨pairwise_scanned pace total, pairwise_written .., fun i hi j hj => ?_⟩,
      List.pairwise_singleton .., fun i hi j hj => ?_⟩
    · obtain ⟨hi, hdvd⟩ := mem_scanned.mp hi
      obtain ⟨k, -, hk, hstretch, rfl⟩ := mem_written.mp hj
      have hle := Nat.le_of_dvd (Nat.pos_of_ne_zero hk) hstretch
      have hi' := hforward i hi hdvd
      omega
    · rw [List.mem_singleton.mp hj]
      rcases List.mem_append.mp hi with hi | hi
      · exact hscanned i hi
      · exact hwritten i hi

end FileRun

/-! ## What a run tells -/

section Runs

variable {σ : Type} {f : Formatter σ} {record : σ → Record} {p : Progress} {s : σ}

open List (Sublist)
open scoped List

theorem Formatter.Records.currents_clock (hf : f.Records record) (s : σ) :
    (record (f.clock s).2).currents = (record s).currents := by
  rw [hf.clock, Record.currents_read]

namespace Progress

theorem currents_send (hf : f.Records record) (n : Nat) (t : Binary64) :
    (record (send f n t p s).2).currents <+ (record s).currents ++ [n] := by
  rw [send]
  split
  next tell htell =>
    rw [hf.update tell htell, Record.currents_tell_update]
  next => exact List.sublist_append_left ..

theorem currents_appear (hf : f.Records record) :
    (record (p.appear f s).2).currents = (record s).currents := by
  rw [appear]
  split
  · rfl
  · dsimp only
    split
    · exact hf.currents_clock s
    · split
      next tell htell =>
        rw [hf.start tell htell, Record.currents_tell_start, hf.currents_clock]
      next => exact hf.currents_clock s

theorem currents_advance (hf : f.Records record) (n : Nat) :
    (record (p.advance f n s).2).currents <+ (record s).currents ++ [n] := by
  rw [advance]
  split
  · dsimp only
    split
    · exact hf.currents_clock s ▸ List.sublist_append_left ..
    · exact hf.currents_clock s ▸ currents_send hf n _
  · exact List.sublist_append_left ..

theorem currents_close (hf : f.Records record) :
    (record (p.close f s)).currents <+
      (record s).currents ++ if p.completed then [] else [p.total] := by
  rw [close]
  split
  · have hsent : (record (if p.completed then s
        else (send f p.total (f.clock s).1 p (f.clock s).2).2)).currents <+
          (record s).currents ++ if p.completed then [] else [p.total] := by
      split
      · exact List.sublist_append_left ..
      · exact hf.currents_clock s ▸ currents_send hf p.total _
    dsimp only
    split
    next tell htell => rwa [hf.finish tell htell, Record.currents_tell_finish]
    next => exact hsent
  · exact List.sublist_append_left ..

theorem currents_complete_close (hf : f.Records record) :
    (record ((p.complete f s).1.close f (p.complete f s).2)).currents <+
      (record s).currents ++ [p.total] := by
  have happear := currents_appear (p := p) (s := s) hf
  have htotal := total_appear f p s
  rw [complete]
  generalize p.appear f s = next at happear htotal ⊢
  obtain ⟨p', s'⟩ := next
  dsimp only at happear htotal ⊢
  split
  · refine (currents_close hf).trans ?_
    rw [if_pos rfl, List.append_nil, ← htotal, ← happear, ← hf.currents_clock s']
    exact currents_send hf ..
  · refine (currents_close hf).trans ?_
    rw [← happear, ← htotal]
    refine (Sublist.refl _).append ?_
    split
    · exact List.nil_sublist _
    · exact .refl _

end Progress

namespace FileRun

variable {steps : List RunStep} {stopped : Bool} {total : Nat} {positions : List Nat}

/-- All that has been told and all that may still be told stands among some positions. -/
def Outcome.Within (record : σ → Record) (total : Nat) (positions : List Nat) :
    Outcome σ → Prop
  | .paused run s => run.progress.total = total ∧ Sober total run.rest ∧
    (record s).currents ++ (advances run.rest ++ [total]) <+ positions
  | .ended _ s | .failed _ s => (record s).currents <+ positions

theorem within_close (hf : f.Records record) (htotal : p.total = total) {rest : List Nat}
    (h : (record s).currents ++ (rest ++ [total]) <+ positions) :
    (record (p.close f s)).currents <+ positions := by
  refine ((Progress.currents_close hf).trans ((Sublist.refl _).append ?_)).trans h
  split
  · exact List.nil_sublist _
  · exact htotal ▸ List.sublist_append_right ..

theorem within_proceed (hf : f.Records record) (htotal : p.total = total)
    (hsteps : Sober total steps)
    (h : (record s).currents ++ (advances steps ++ [total]) <+ positions) :
    (proceed f stopped steps p s).Within record total positions := by
  induction steps generalizing p s with
  | nil => exact within_close hf htotal h
  | cons step rest ih =>
      cases step with
      | pause => exact ⟨htotal, hsteps.2, h⟩
      | appear =>
          have happear := Progress.currents_appear (p := p) (s := s) hf
          exact ih ((Progress.total_appear f p s).trans htotal) hsteps.2 (happear.symm ▸ h)
      | advance n =>
          have hadvance := (Progress.currents_advance (p := p) (s := s) hf n).append
            (Sublist.refl (advances rest ++ [total]))
          rw [List.append_assoc] at hadvance
          exact ih ((Progress.total_advance f p s n).trans htotal) hsteps.2 (hadvance.trans h)
      | complete =>
          obtain ⟨changed, rfl⟩ := hsteps
          exact (Progress.currents_complete_close hf).trans (htotal ▸ h)
      | finish changed => exact within_close hf htotal h
      | heedStop | writeLine | writeAll =>
          have hclose : ∀ s', record s' = record s →
              (record (p.close f s')).currents <+ positions := fun s' hrecord =>
            within_close hf htotal (hrecord ▸ h)
          exact proceed_silent hf trivial (fun s' hrecord => ih htotal hsteps.2 (hrecord ▸ h))
            hclose fun _ => hclose

end FileRun

/-- What is told of how far a run over some lines is never goes back, whenever the run is told to
stop. -/
def Formatter.Forward (f : Formatter σ) (ov : Overrides) (lines : List (Option Text)) : Prop :=
  ∀ stopBefore s, (f.recorded.formatFile ov lines stopBefore (s, {})).state.2.currents.Pairwise
    (· ≤ ·)

/-- A plan that does not go back is not told as one that does. -/
theorem Formatter.forward_of_pairwise {ov : Overrides} {lines : List (Option Text)}
    (h : (FileRun.advances (FileRun.plan f ov (FileRun.filled lines)) ++ [lines.length]).Pairwise
      (· ≤ ·)) : f.Forward ov lines := by
  intro stopBefore s
  have hrecords := f.records_recorded
  have hlength : (FileRun.filled lines).length = lines.length := List.length_map ..
  refine h.sublist ?_
  have hstart : ∀ stopped, (f.recorded.startFile ov lines stopped (s, {})).Within Prod.snd
      lines.length (FileRun.advances (FileRun.plan f ov (FileRun.filled lines)) ++
        [lines.length]) := by
    intro stopped
    rw [startFile]
    split
    · exact List.nil_sublist _
    · refine FileRun.within_proceed hrecords hlength (hlength ▸ FileRun.sober_plan ..) ?_
      rw [FileRun.plan_recorded]
      exact .refl _
  rw [formatFile_eq]
  rcases FileRun.carryThrough_keeps (fun i run t hpaused => FileRun.within_proceed hrecords
    hpaused.1 hpaused.2.1 hpaused.2.2) (hstart _) (Nat.le_refl _) with
    ⟨changed, hended⟩ | ⟨e, hfailed⟩
  · exact hended
  · exact hfailed

/-! ## A run that tells everything -/

/-- By a clock that stands still progress is shown at once and every update is told, and nothing
that is written fails. -/
structure Formatter.Prompt (f : Formatter σ) (record : σ → Record) : Prop where
  records : f.Records record
  update : f.host.progressUpdate?.isSome
  clock : ∀ s, (f.clock s).1 = .finite 0 0
  showAfter : f.pace.showAfter = .finite 0 0
  minInterval : f.pace.minInterval = .finite 0 0
  line : ∀ replace ∈ f.host.replaceLine?, ∀ n line s, (replace n line s).result = .ok ()
  all : ∀ replace ∈ f.host.replaceAll?, ∀ lines s, (replace lines s).result = .ok ()

/-- No time has passed since the run began, or since progress was told, and all is not yet told to
be done. -/
structure Progress.Still (p : Progress) (total : Nat) : Prop where
  total : p.total = total
  completed : p.completed = false
  startedAt : p.startedAt = .finite 0 0
  lastUpdate : ∀ t ∈ p.lastUpdate, t = .finite 0 0

namespace Formatter.Prompt

variable {total : Nat}

theorem currents_send (h : f.Prompt record) (n : Nat) (t : Binary64) (s : σ) :
    (record (Progress.send f n t p s).2).currents = (record s).currents ++ [n] := by
  obtain ⟨tell, htell⟩ := Option.isSome_iff_exists.mp h.update
  rw [Progress.send, htell]
  dsimp only
  rw [h.records.update tell htell, Record.currents_tell_update]

theorem appear (h : f.Prompt record) (hstill : p.Still total) :
    (p.appear f s).1.visible = true ∧ (p.appear f s).1.Still total := by
  rw [Progress.appear]
  split
  next hvisible => exact ⟨hvisible, hstill⟩
  next =>
    have hlate : ((f.clock s).1.sub p.startedAt).lt f.pace.showAfter = false := by
      rw [h.clock, hstill.startedAt, h.showAfter]
      decide
    dsimp only
    rw [hlate, if_neg Bool.false_ne_true]
    split <;> exact ⟨rfl, hstill.total, hstill.completed, hstill.startedAt, fun _ h => by cases h⟩

theorem advance (h : f.Prompt record) (hvisible : p.visible = true) (hstill : p.Still total)
    (n : Nat) :
    (p.advance f n s).1.visible = true ∧ (p.advance f n s).1.Still total ∧
      (record (p.advance f n s).2).currents = (record s).currents ++ [n] := by
  have hsoon : p.tooSoon f (f.clock s).1 = false := by
    rw [Progress.tooSoon]
    split
    next t hlast =>
      rw [h.clock, hstill.lastUpdate t hlast, h.minInterval]
      decide
    next => rfl
  rw [Progress.advance, if_pos hvisible]
  dsimp only
  rw [hsoon, if_neg Bool.false_ne_true, h.currents_send, h.records.currents_clock,
    Progress.fst_send]
  refine ⟨hvisible, ⟨hstill.total, hstill.completed, hstill.startedAt, fun t ht => ?_⟩, rfl⟩
  exact (Option.some.inj ht).symm.trans (h.clock s)

/-- Whether all was told to be done before or not, it is told when the run is over. -/
theorem close (h : f.Prompt record) (hvisible : p.visible = true) :
    (record (p.close f s)).currents =
      (record s).currents ++ if p.completed then [] else [p.total] := by
  have hsent : (record (if p.completed then s
      else (Progress.send f p.total (f.clock s).1 p (f.clock s).2).2)).currents =
        (record s).currents ++ if p.completed then [] else [p.total] := by
    split
    · rw [List.append_nil]
    · rw [h.currents_send, h.records.currents_clock]
  rw [Progress.close, if_pos hvisible]
  dsimp only
  split
  next tell htell => rwa [h.records.finish tell htell, Record.currents_tell_finish]
  next => exact hsent

theorem complete_close (h : f.Prompt record) (hvisible : p.visible = true) :
    (record ((p.complete f s).1.close f (p.complete f s).2)).currents =
      (record s).currents ++ [p.total] := by
  have happear : p.appear f s = (p, s) := if_pos hvisible
  rw [Progress.complete, happear]
  dsimp only
  rw [if_pos hvisible]
  dsimp only
  rw [h.close (by rw [Progress.fst_send]; exact hvisible), h.currents_send,
    h.records.currents_clock, if_pos rfl, List.append_nil]

/-- With a step that tells nothing a run that is not to stop goes on: what it writes is written. -/
theorem proceed_of_silent (h : f.Prompt record) {P : FileRun.Outcome σ → Prop} {step : RunStep}
    {rest : List RunStep} (hstep : step.Silent)
    (hnext : ∀ s', record s' = record s → P (FileRun.proceed f false rest p s')) :
    P (FileRun.proceed f false (step :: rest) p s) := by
  cases step with
  | heedStop => exact hnext s rfl
  | writeLine n line =>
      rw [FileRun.proceed]
      split
      · exact hnext s rfl
      next replace hr =>
        have hrecord := h.records.line replace hr n line s
        have hresult := h.line replace hr n line s
        split <;> rename_i hwritten <;> rw [hwritten] at hrecord hresult
        · exact hnext _ hrecord
        · cases hresult
  | writeAll lines =>
      rw [FileRun.proceed]
      split
      · exact hnext s rfl
      next replace hr =>
        have hrecord := h.records.all replace hr lines s
        have hresult := h.all replace hr lines s
        split <;> rename_i hwritten <;> rw [hwritten] at hrecord hresult
        · exact hnext _ hrecord
        · cases hresult
  | _ => cases hstep

end Formatter.Prompt

namespace FileRun

variable {steps : List RunStep} {total : Nat} {positions : List Nat}

/-- All that has been told and all that is still to be told are some positions. -/
def Outcome.Tells (record : σ → Record) (total : Nat) (positions : List Nat) : Outcome σ → Prop
  | .paused run s => run.progress.visible = true ∧ run.progress.Still total ∧ Sober total run.rest ∧
    (record s).currents ++ (advances run.rest ++ [total]) = positions
  | .ended _ s => (record s).currents = positions
  | .failed .. => False

theorem tells_proceed (hf : f.Prompt record) (hstill : p.Still total)
    (hvisible : steps.head? ≠ some .appear → p.visible = true) (hsteps : Sober total steps)
    (h : (record s).currents ++ (advances steps ++ [total]) = positions) :
    (proceed f false steps p s).Tells record total positions := by
  have hclose : ∀ {p : Progress} {s}, p.Still total → p.visible = true →
      (record (p.close f s)).currents = (record s).currents ++ [total] := by
    intro p s hstill hvisible
    rw [hf.close hvisible, hstill.completed, if_neg Bool.false_ne_true, hstill.total]
  induction steps generalizing p s with
  | nil => exact (hclose hstill (hvisible (by simp))).trans h
  | cons step rest ih =>
      cases step with
      | appear =>
          obtain ⟨hshown, hstill'⟩ := hf.appear (s := s) hstill
          have happear := Progress.currents_appear (p := p) (s := s) hf.records
          exact ih hstill' (fun _ => hshown) hsteps.2 (happear.symm ▸ h)
      | advance n =>
          obtain ⟨hshown, hstill', hadvance⟩ :=
            hf.advance (s := s) (hvisible (by simp)) hstill n
          have hnext : (record (p.advance f n s).2).currents ++ (advances rest ++ [total]) =
              positions := by
            rw [hadvance, List.append_assoc]
            exact h
          exact ih hstill' (fun _ => hshown) hsteps.2 hnext
      | pause => exact ⟨hvisible (by simp), hstill, hsteps.2, h⟩
      | complete =>
          obtain ⟨changed, rfl⟩ := hsteps
          have hcomplete := hf.complete_close (s := s) (hvisible (by simp))
          exact hcomplete.trans (hstill.total ▸ h)
      | finish changed =>
          obtain rfl : rest = [] := hsteps
          exact (hclose hstill (hvisible (by simp))).trans h
      | heedStop | writeLine | writeAll =>
          have hshown := hvisible (by simp)
          exact hf.proceed_of_silent trivial fun s' hrecord =>
            ih hstill (fun _ => hshown) hsteps.2 (hrecord ▸ h)

end FileRun

end Runs

/-- A formatter for a document that replaces lines one by one and is quick to tell how far it is. -/
def Formatter.promptly (pace : Pace) : Formatter Document where
  host := Document.host.without fun a => decide (a = .replaceAll)
  pace := { pace with showAfter := .finite 0 0, minInterval := .finite 0 0 }
  clock d := (.finite 0 0, d)

theorem Formatter.prompt_promptly (pace : Pace) :
    (promptly pace).recorded.Prompt Prod.snd where
  records := Formatter.records_recorded _
  update := rfl
  clock _ := rfl
  showAfter := rfl
  minInterval := rfl
  line := by
    rintro _ ⟨⟩ n line t
    rfl
  all := by
    rintro _ ⟨⟩

theorem FileRun.head?_plan {σ : Type} (f : Formatter σ) (ov : Overrides) {lines : List Text}
    (hlines : lines ≠ []) : (plan f ov lines).head? = some .appear := by
  obtain ⟨line, lines, rfl⟩ := List.exists_cons_of_ne_nil hlines
  have hfirst : scanSteps f.pace 0 = [.appear, .advance 0] := by
    simp [scanSteps, Pace.pausesAfter]
  rw [plan, List.length_cons, List.range_succ_eq_map, List.flatMap_cons, hfirst]
  rfl

/-- All positions of the plan are told, and then that all is done. -/
theorem Formatter.currents_promptly (pace : Pace) (ov : Overrides)
    {lines : List (Option Text)} (hlines : lines ≠ []) (d : Document) :
    ((promptly pace).recorded.formatFile ov lines none (d, {})).state.2.currents =
      FileRun.advances (FileRun.plan (promptly pace) ov (FileRun.filled lines)) ++
        [lines.length] := by
  have hprompt := prompt_promptly pace
  have hlength : (FileRun.filled lines).length = lines.length := List.length_map ..
  have hfilled : FileRun.filled lines ≠ [] := mt List.map_eq_nil_iff.mp hlines
  have hstart : ((promptly pace).recorded.startFile ov lines false (d, {})).Tells Prod.snd
      lines.length (FileRun.advances (FileRun.plan (promptly pace) ov
        (FileRun.filled lines)) ++ [lines.length]) := by
    rw [Formatter.startFile, if_neg (by simpa using hfilled)]
    refine FileRun.tells_proceed hprompt ⟨hlength, rfl, rfl, fun _ h => by cases h⟩
      (absurd (FileRun.head?_plan _ _ hfilled)) (hlength ▸ FileRun.sober_plan ..) ?_
    rw [FileRun.plan_recorded]
    rfl
  rw [Formatter.formatFile_none]
  rcases FileRun.carryThrough_keeps (fun i run t hpaused => FileRun.tells_proceed hprompt
    hpaused.2.1 (fun _ => hpaused.1) hpaused.2.2.1 hpaused.2.2.2) hstart (Nat.le_refl _) with
    ⟨changed, hended⟩ | ⟨e, hfailed⟩
  · exact hended
  · exact hfailed.elim

/-! ## Going back -/

/-- If all lines are replaced at once progress never goes back, whatever the clock shows and
whenever the run is told to stop. For all hosts that holds exactly if the lines are formatted
already, or if none of the positions that the scan reports lies behind the one that is reported
first while lines are written. -/
theorem progress_forward_iff (pace : Pace) (ov : Overrides) (lines : List (Option Text)) :
    (∀ (σ : Type) (f : Formatter σ), f.host.replaceAll?.isSome → f.Forward ov lines) ∧
      ((∀ (σ : Type) (f : Formatter σ), f.pace.chunk = pace.chunk →
          f.pace.pauseEvery = pace.pauseEvery → f.Forward ov lines) ↔
        (∀ line ∈ FileRun.filled lines, formatIndented ov line = line) ∨
          ∀ i < lines.length, pace.chunkSize ∣ i → i ≤ pace.stretch + 1) := by
  have hlength : (FileRun.filled lines).length = lines.length := List.length_map ..
  -- a run that writes no lines one by one tells the positions of its scan, and no others
  have hscan : ∀ {σ : Type} {f : Formatter σ},
      ¬((FileRun.filled lines).map (formatIndented ov) ≠ FileRun.filled lines ∧
        ¬f.host.replaceAll?.isSome ∧ f.host.replaceLine?.isSome) → f.Forward ov lines := by
    intro σ f hwrites
    refine f.forward_of_pairwise ?_
    rw [FileRun.advances_plan, if_neg hwrites, List.append_nil, hlength]
    refine List.pairwise_append.mpr ⟨FileRun.pairwise_scanned .., List.pairwise_singleton ..,
      fun i hi j hj => ?_⟩
    rw [List.mem_singleton.mp hj]
    exact Nat.le_of_lt (FileRun.mem_scanned.mp hi).1
  refine ⟨fun σ f hall => hscan fun h => h.2.1 hall, fun hforward => ?_, ?_⟩
  · by_cases hformatted : (FileRun.filled lines).map (formatIndented ov) = FileRun.filled lines
    · exact .inl (FileRun.map_eq_self_iff.mp hformatted)
    · right
      have hlines : lines ≠ [] := by
        rintro rfl
        exact hformatted rfl
      have htold := hforward Document (.promptly pace) rfl rfl none { lines := [] }
      rw [Formatter.currents_promptly pace ov hlines, FileRun.advances_plan,
        if_pos ⟨hformatted, Bool.false_ne_true, rfl⟩, hlength] at htold
      exact (FileRun.pairwise_positions_iff _ _).mp htold
  · rintro (hformatted | hforward) σ f hchunk hevery
    · exact hscan fun h => h.1 (FileRun.map_eq_self_iff.mpr hformatted)
    · by_cases hwrites : (FileRun.filled lines).map (formatIndented ov) ≠ FileRun.filled lines ∧
          ¬f.host.replaceAll?.isSome ∧ f.host.replaceLine?.isSome
      · refine f.forward_of_pairwise ?_
        rw [FileRun.advances_plan, if_pos hwrites, hlength]
        refine (FileRun.pairwise_positions_iff _ _).mpr ?_
        rwa [Pace.chunkSize, Pace.stretch, hchunk, hevery]
      · exact hscan hwrites

/-- Four lines, the first of which has a space too many: when the run is as far as the fourth line
it tells that it has written the second. -/
theorem progress_goes_back :
    ¬∀ (σ : Type) (f : Formatter σ) (ov : Overrides) (lines : List (Option Text)),
      f.Forward ov lines := by
  intro h
  have hback := h Document (.promptly { chunk := 1, pauseEvery := 1 }) {}
    (["- [ ]  a".toList, ['b'], ['c'], ['d']].map some) none
    { lines := ["- [ ]  a".toList, ['b'], ['c'], ['d']] }
  exact absurd hback (by decide +kernel)

end TaskLine
