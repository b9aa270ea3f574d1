import Mathlib.Algebra.Order.Field.Power
import Mathlib.Data.List.Chain
import Mathlib.Data.Rat.Cast.Order
import Mathlib.Tactic.Positivity
import TaskLine.Clock
import TaskLine.Proofs.Formatter.Record

/-!
# How progress is reported

A run either tells its host nothing of progress, or it tells that it has begun, then how far it is,
then that all is done, and then that it is over (`Record.Orderly`). That holds for every host, clock
and pace, and however the run ends: because there is nothing to write, because all is written,
because it is told to stop or because the host fails (`formatFile_orderly`). While the run goes on,
what it knows of the progress that it shows agrees with what it has told (`Progress.Keeps`), and it
tells that all is done only where it is about to end (`FileRun.Sober`).
-/

namespace TaskLine

/-! ## The order of reports -/

/-- By the clock at least so many seconds have passed. -/
def Elapsed (seconds since now : Binary64) : Prop := (now.sub since).lt seconds = false

/-- Of numbers it is the greater one, or the same, that is not less. -/
theorem elapsed_iff {m e m' e' : Int} {since now : Binary64} (hsub : now.sub since = .finite m e) :
    Elapsed (.finite m' e') since now ↔ (m' : ℚ) * 2 ^ e' ≤ m * 2 ^ e := by
  have hscaled : ∀ m e₀ e : Int, e₀ ≤ e →
      ((m * Binary64.twoTo (e - e₀) : Int) : ℚ) * 2 ^ e₀ = m * 2 ^ e := by
    intro m e₀ e he
    have hsplit : ((e - e₀).toNat : Int) + e₀ = e := by omega
    calc ((m * Binary64.twoTo (e - e₀) : Int) : ℚ) * 2 ^ e₀
        = m * (2 ^ ((e - e₀).toNat : Int) * 2 ^ e₀) := by
          rw [zpow_natCast, ← mul_assoc]
          simp [Binary64.twoTo]
      _ = m * 2 ^ e := by rw [← zpow_add₀ two_ne_zero, hsplit]
  rw [Elapsed, hsub, Binary64.lt, Binary64.aligned]
  dsimp only
  rw [decide_eq_false_iff_not, not_lt, ← hscaled m _ e (min_le_left e e'),
    ← hscaled m' _ e' (min_le_right e e'), mul_le_mul_iff_left₀ (by positivity)]
  exact_mod_cast Iff.rfl

instance (seconds since now : Binary64) : Decidable (Elapsed seconds since now) :=
  inferInstanceAs (Decidable (_ = _))

/-- What has been told of a run that is shown. -/
def reports (total : Nat) (shownAt : Binary64) (ups : List (Binary64 × Nat)) :
    List (Option Binary64 × ProgressEvent) :=
  (some shownAt, .start Progress.title total) :: ups.map fun u => (some u.1, .update u.2 total)

/-- When a run is shown and how far it is then, as a pace asks for it. -/
structure Paced (pace : Pace) (total : Nat) (startedAt shownAt : Binary64)
    (ups : List (Binary64 × Nat)) : Prop where
  late : Elapsed pace.showAfter startedAt shownAt
  within : ∀ u ∈ ups, u.2 ≤ total
  spaced : ups.IsChain fun u v => Elapsed pace.minInterval u.1 v.1

/-- Nothing was told of a run; or it was told that it begins, how far it is, that all is done and
that it is over. -/
def Record.Orderly (pace : Pace) (total : Nat) (r : Record) : Prop :=
  r.told = [] ∨ ∃ startedAt shownAt ups doneAt, r.readings.head? = some startedAt ∧
    Paced pace total startedAt shownAt ups ∧
    r.told = reports total shownAt ups ++
      [(some doneAt, .update total total), (some doneAt, .finish)]

/-- A host that is told of progress in all three ways. -/
structure Host.Announces {σ : Type} (host : Host σ) : Prop where
  start : host.progressStart?.isSome
  update : host.progressUpdate?.isSome
  finish : host.progressEnd?.isSome

/-! ## What a run knows of what it told -/

/-- Neither is it told that all is done. -/
inductive Progress.Keeps (pace : Pace) (p : Progress) (r : Record) : Prop
  | hidden (hvisible : p.visible = false) (hcompleted : p.completed = false)
      (hstart : r.readings.head? = some p.startedAt) (htold : r.told = [])
  | shown (shownAt : Binary64) (ups : List (Binary64 × Nat)) (hvisible : p.visible = true)
      (hcompleted : p.completed = false) (hstart : r.readings.head? = some p.startedAt)
      (hpaced : Paced pace p.total p.startedAt shownAt ups)
      (hlast : p.lastUpdate = ups.getLast?.map Prod.fst)
      (htold : r.told = reports p.total shownAt ups)

namespace Progress

variable {σ : Type} {f : Formatter σ} {record : σ → Record} {p : Progress} {s : σ} {n : Nat}

theorem head?_readings_read {r : Record} {t : Binary64} (h : r.readings.head? = some t)
    (t' : Binary64) : (r.read t').readings.head? = some t := by
  rw [Record.readings_read, List.head?_append, h]
  rfl

theorem fst_send (time : Binary64) :
    (send f n time p s).1 = { p with lastUpdate := some time } := by
  rw [send]
  split <;> rfl

theorem record_send (hf : f.Records record) (hhost : f.host.Announces) (time : Binary64) :
    record (send f n time p s).2 = (record s).tell (.update n p.total) := by
  obtain ⟨tell, htell⟩ := Option.isSome_iff_exists.mp hhost.update
  rw [send, htell]
  exact hf.update tell htell n p.total s

/-- An update that is told right behind a reading. -/
theorem told_send (hf : f.Records record) (hhost : f.host.Announces) {s : σ} :
    (record (send f n (f.clock s).1 p (f.clock s).2).2).told =
      (record s).told ++ [(some (f.clock s).1, .update n p.total)] := by
  rw [record_send hf hhost, hf.clock]
  simp

theorem readings_send (hf : f.Records record) (hhost : f.host.Announces) {s : σ} :
    (record (send f n (f.clock s).1 p (f.clock s).2).2).readings =
      (record s).readings ++ [(f.clock s).1] := by
  rw [record_send hf hhost, hf.clock]
  rfl

theorem Keeps.appear (hf : f.Records record) (hhost : f.host.Announces)
    (h : p.Keeps f.pace (record s)) :
    (p.appear f s).1.Keeps f.pace (record (p.appear f s).2) := by
  cases h with
  | shown shownAt ups hvisible hcompleted hstart hpaced hlast htold =>
      rw [Progress.appear, if_pos hvisible]
      exact .shown shownAt ups hvisible hcompleted hstart hpaced hlast htold
  | hidden hvisible hcompleted hstart htold =>
      have hclock := hf.clock s
      have hstart := head?_readings_read hstart (f.clock s).1
      rw [Progress.appear, if_neg (by simp [hvisible])]
      dsimp only
      split
      next => exact .hidden hvisible hcompleted (hclock ▸ hstart) (hclock ▸ htold)
      next hlate =>
        obtain ⟨tell, htell⟩ := Option.isSome_iff_exists.mp hhost.start
        rw [htell]
        refine .shown (f.clock s).1 [] rfl hcompleted ?_ ?_ rfl ?_
        · rw [hf.start tell htell, hclock]
          exact hstart
        · exact ⟨Bool.eq_false_iff.mpr hlate, List.forall_mem_nil _, .nil⟩
        · rw [hf.start tell htell, hclock]
          simp [htold, reports]

/-- One more update, where the last was told long enough ago. -/
theorem Keeps.send (hf : f.Records record) (hhost : f.host.Announces) (hn : n ≤ p.total)
    (hvisible : p.visible = true) (hsoon : p.tooSoon f (f.clock s).1 = false)
    (h : p.Keeps f.pace (record s)) :
    (send f n (f.clock s).1 p (f.clock s).2).1.Keeps f.pace
      (record (Progress.send f n (f.clock s).1 p (f.clock s).2).2) := by
  cases h with
  | hidden hhidden => cases hvisible.symm.trans hhidden
  | shown shownAt ups _ hcompleted hstart hpaced hlast htold =>
      rw [fst_send]
      refine .shown shownAt (ups ++ [((f.clock s).1, n)]) hvisible hcompleted
        ?_ ⟨hpaced.late, ?_, ?_⟩ (by simp) ?_
      · rw [readings_send hf hhost, List.head?_append, hstart]
        rfl
      · exact List.forall_mem_append.mpr ⟨hpaced.within, List.forall_mem_singleton.mpr hn⟩
      · refine List.isChain_append.mpr ⟨hpaced.spaced, .singleton _, fun u hu v hv => ?_⟩
        obtain rfl := Option.some.inj hv
        rw [tooSoon, hlast, Option.mem_def.mp hu] at hsoon
        exact hsoon
      · rw [told_send hf hhost, htold]
        simp [reports]

theorem Keeps.advance (hf : f.Records record) (hhost : f.host.Announces) (hn : n ≤ p.total)
    (h : p.Keeps f.pace (record s)) :
    (p.advance f n s).1.Keeps f.pace (record (p.advance f n s).2) := by
  rw [Progress.advance]
  split
  next hvisible =>
    dsimp only
    split
    next =>
      rw [hf.clock]
      cases h with
      | hidden hhidden => cases hvisible.symm.trans hhidden
      | shown shownAt ups _ hcompleted hstart hpaced hlast htold =>
          exact .shown shownAt ups hvisible hcompleted (head?_readings_read hstart _) hpaced hlast
            htold
    next hsoon => exact h.send hf hhost hn hvisible (Bool.eq_false_iff.mpr hsoon)
  next => exact h

/-- All is done, and the run is over. -/
theorem Keeps.finish (hf : f.Records record) (hhost : f.host.Announces)
    (hvisible : p.visible = true) (h : p.Keeps f.pace (record s)) {tell : σ → σ}
    (htell : f.host.progressEnd? = some tell) :
    (record (tell (Progress.send f p.total (f.clock s).1 p (f.clock s).2).2)).Orderly
      f.pace p.total := by
  cases h with
  | hidden hhidden => cases hvisible.symm.trans hhidden
  | shown _ _ _ _ hstart hpaced _ htold =>
      rw [hf.finish tell htell]
      refine .inr ⟨_, _, _, (f.clock s).1, ?_, hpaced, ?_⟩
      · rw [Record.readings_tell, readings_send hf hhost, List.head?_append, hstart]
        rfl
      · rw [Record.told_tell, readings_send hf hhost, told_send hf hhost, htold]
        simp

theorem Keeps.close (hf : f.Records record) (hhost : f.host.Announces)
    (h : p.Keeps f.pace (record s)) : (record (p.close f s)).Orderly f.pace p.total := by
  obtain ⟨tell, htell⟩ := Option.isSome_iff_exists.mp hhost.finish
  rw [Progress.close]
  cases hkeeps : h with
  | hidden hvisible _ _ htold =>
      rw [if_neg (by simp [hvisible])]
      exact .inl htold
  | shown _ _ hvisible hcompleted =>
      rw [if_pos hvisible, if_neg (by simp [hcompleted]), htell]
      exact h.finish hf hhost hvisible htell

/-- A run that has told that all is done is over with that. -/
theorem Keeps.complete (hf : f.Records record) (hhost : f.host.Announces)
    (h : p.Keeps f.pace (record s)) :
    (record ((p.complete f s).1.close f (p.complete f s).2)).Orderly f.pace p.total := by
  obtain ⟨tell, htell⟩ := Option.isSome_iff_exists.mp hhost.finish
  have hkeeps := h.appear hf hhost
  rw [← total_appear f p s, Progress.complete]
  generalize p.appear f s = next at hkeeps ⊢
  obtain ⟨p', s'⟩ := next
  dsimp only at hkeeps ⊢
  split
  next hvisible =>
    dsimp only
    rw [fst_send, Progress.close, if_pos hvisible, if_pos rfl, htell]
    exact hkeeps.finish hf hhost hvisible htell
  next => exact hkeeps.close hf hhost

end Progress

/-! ## Steps -/

/-- A step that is neither the end of a run nor tells that all is done. -/
def RunStep.Plain (total : Nat) : RunStep → Prop
  | .advance n => n ≤ total
  | .complete | .finish _ => False
  | _ => True

namespace FileRun

/-- No step tells that more is done than there is, or that all is done before the run is over. -/
def Sober (total : Nat) : List RunStep → Prop
  | [] => True
  | .finish _ :: rest => rest = []
  | .complete :: rest => ∃ changed, rest = [.finish changed]
  | step :: rest => step.Plain total ∧ Sober total rest

section Steps

variable {σ : Type} {f : Formatter σ} {record : σ → Record} {steps rest : List RunStep}
  {stopped : Bool} {p : Progress} {s : σ} {total : Nat} {pace : Pace}

theorem sober_append (hsteps : ∀ step ∈ steps, step.Plain total) (hrest : Sober total rest) :
    Sober total (steps ++ rest) := by
  induction steps with
  | nil => exact hrest
  | cons step steps ih =>
      obtain ⟨hstep, hlater⟩ := List.forall_mem_cons.mp hsteps
      cases step with
      | complete => cases hstep
      | finish changed => cases hstep
      | _ => exact ⟨hstep, ih hlater⟩

/-- Where a run pauses it knows what it has told, and where it is over all is in order. -/
def Outcome.Orderly (pace : Pace) (total : Nat) (record : σ → Record) : Outcome σ → Prop
  | .paused run s =>
    run.progress.total = total ∧ Sober total run.rest ∧ run.progress.Keeps pace (record s)
  | .ended _ s | .failed _ s => (record s).Orderly pace total

theorem orderly_proceed (hf : f.Records record) (hhost : f.host.Announces)
    (hsteps : Sober p.total steps) (h : p.Keeps f.pace (record s)) :
    (proceed f stopped steps p s).Orderly f.pace p.total record := by
  induction steps generalizing p s with
  | nil => exact h.close hf hhost
  | cons step rest ih =>
      cases step with
      | pause => exact ⟨rfl, hsteps.2, h⟩
      | appear =>
          have htotal := Progress.total_appear f p s
          have hnext := ih (htotal ▸ hsteps.2) (h.appear hf hhost)
          rwa [htotal] at hnext
      | advance n =>
          have htotal := Progress.total_advance f p s n
          have hnext := ih (htotal ▸ hsteps.2) (h.advance hf hhost hsteps.1)
          rwa [htotal] at hnext
      | complete =>
          obtain ⟨changed, rfl⟩ := hsteps
          exact h.complete hf hhost
      | finish changed => exact h.close hf hhost
      | heedStop | writeLine | writeAll =>
          have hclose : ∀ s', record s' = record s →
              (record (p.close f s')).Orderly f.pace p.total := fun s' hrecord =>
            Progress.Keeps.close hf hhost (hrecord ▸ h)
          exact proceed_silent hf trivial (fun s' hrecord => ih hsteps.2 (hrecord ▸ h)) hclose
            fun _ => hclose

end Steps

/-! ## Plans -/

section Plans

variable {pace : Pace} {total i : Nat}

theorem plain_scanSteps (hi : i ≤ total) : ∀ step ∈ scanSteps pace i, step.Plain total := by
  rw [scanSteps]
  split <;> split <;> simp [RunStep.Plain, hi]

theorem plain_scan (lines : List Text) : ∀ step ∈ scan pace lines, step.Plain lines.length := by
  refine List.forall_mem_append.mpr ⟨fun step hstep => ?_, List.forall_mem_singleton.mpr trivial⟩
  obtain ⟨i, hi, hstep⟩ := List.mem_flatMap.mp hstep
  exact plain_scanSteps (Nat.le_of_lt (List.mem_range.mp hi)) step hstep

theorem plain_writeLines (pairs : List (Text × Text)) :
    ∀ step ∈ writeLines pace total i pairs, step.Plain total := by
  induction pairs generalizing i with
  | nil => exact nofun
  | cons pair pairs ih =>
      refine List.forall_mem_append.mpr ⟨?_, ih⟩
      have hi : min (i + 1) total ≤ total := Nat.min_le_right ..
      rw [writeSteps]
      split <;> split <;> simp [RunStep.Plain, hi]

theorem sober_plan {σ : Type} (f : Formatter σ) (ov : Overrides) (lines : List Text) :
    Sober lines.length (plan f ov lines) := by
  obtain ⟨steps, changed, hclosing, hplan⟩ := exists_closing f ov lines
  rw [hplan, List.append_assoc]
  refine sober_append (plain_scan lines) ?_
  have hend : Sober lines.length ([.complete] ++ [.finish changed]) := ⟨changed, rfl⟩
  cases hclosing with
  | unchanged => exact hend
  | atOnce => exact ⟨trivial, hend⟩
  | oneByOne =>
      rw [List.append_assoc]
      exact sober_append (plain_writeLines _) hend
  | unwritten => exact rfl

end Plans

end FileRun

/-! ## Runs -/

/-- Whatever the lines, the host, the clock and the pace are, and whenever a run is told to stop, it
tells its host nothing of progress, or tells it in order. -/
theorem Formatter.formatFile_orderly {σ : Type} (f : Formatter σ) (hhost : f.host.Announces)
    (ov : Overrides) (lines : List (Option Text)) (stopBefore : Option Nat) (s : σ) :
    let run := f.recorded.formatFile ov lines stopBefore (s, {})
    run.forget = f.formatFile ov lines stopBefore s ∧
      run.state.2.Orderly f.pace lines.length := by
  refine ⟨formatFile_recorded f ov lines stopBefore (s, {}), ?_⟩
  have hhost' : f.recorded.host.Announces :=
    ⟨by simpa [recorded] using hhost.start, by simpa [recorded] using hhost.update,
      by simpa [recorded] using hhost.finish⟩
  have hrecords := f.records_recorded
  have hlength : (FileRun.filled lines).length = lines.length := List.length_map ..
  have hstart : ∀ stopped, (f.recorded.startFile ov lines stopped (s, {})).Orderly f.pace
      lines.length Prod.snd := by
    intro stopped
    rw [startFile]
    split
    · exact .inl rfl
    · rw [← hlength]
      exact FileRun.orderly_proceed hrecords hhost' (FileRun.sober_plan ..)
        (.hidden rfl rfl rfl rfl)
  have hresume : ∀ stopped (run : FileRun) t,
      (FileRun.Outcome.paused run t).Orderly f.pace lines.length Prod.snd →
        (run.resume f.recorded stopped t).Orderly f.pace lines.length Prod.snd := by
    rintro stopped run t ⟨htotal, hrest, hkeeps⟩
    rw [← htotal] at hrest ⊢
    exact FileRun.orderly_proceed hrecords hhost' hrest hkeeps
  rw [formatFile_eq]
  rcases FileRun.carryThrough_keeps (fun _ => hresume _) (hstart _) (Nat.le_refl _) with
    ⟨changed, hended⟩ | ⟨e, hfailed⟩
  · exact hended
  · exact hfailed

/-- Three lines on a clock that shows one second more with every reading. The run is told to stop in
its first pause, and tells that all is done nevertheless. -/
theorem formatFile_orderly_stopped :
    let f : Formatter (Document × Clock) := .clocked Document.host { chunk := 1, pauseEvery := 1 }
    let lines := ["- [ ]  a".toList, "b".toList, "c".toList]
    let readings := [0, 1, 2, 3, 4].map fun n => Binary64.finite n 0
    let record := (f.recorded.formatFile {} (lines.map some) (some 1)
      (({ lines }, ⟨readings⟩), {})).state.2
    f.host.Announces ∧ record.Orderly f.pace 3 ∧ record.told =
      [(some (.finite 1 0), .start Progress.title 3), (some (.finite 2 0), .update 0 3),
        (some (.finite 3 0), .update 1 3), (some (.finite 4 0), .update 3 3),
        (some (.finite 4 0), .finish)] := by
  intro f lines readings record
  have hhost : f.host.Announces := ⟨rfl, rfl, rfl⟩
  exact ⟨hhost, (f.formatFile_orderly hhost {} (lines.map some) (some 1) _).2, by decide +kernel⟩

end TaskLine
