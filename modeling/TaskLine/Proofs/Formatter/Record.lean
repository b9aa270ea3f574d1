import TaskLine.Document
import TaskLine.Proofs.Formatter.Writing

/-!
# Records of runs

What can be seen of a run from outside is what its clock shows and what its host is told of
progress. Both are written into a record (`Formatter.recorded`), each message with the last reading
before it. Keeping a record makes no difference to a run (`formatFile_recorded`), so what holds of
every record that is kept holds of every run.
-/

namespace TaskLine

/-- What the clock has shown and what was told of progress, the first of each first. A message is
given with the last reading before it. -/
structure Record where
  readings : List Binary64 := []
  told : List (Option Binary64 × ProgressEvent) := []
deriving Repr

namespace Record

def read (t : Binary64) (r : Record) : Record := { r with readings := r.readings ++ [t] }

def tell (e : ProgressEvent) (r : Record) : Record :=
  { r with told := r.told ++ [(r.readings.getLast?, e)] }

@[simp] theorem readings_read (t : Binary64) (r : Record) :
    (r.read t).readings = r.readings ++ [t] := rfl

@[simp] theorem told_read (t : Binary64) (r : Record) : (r.read t).told = r.told := rfl

@[simp] theorem readings_tell (e : ProgressEvent) (r : Record) :
    (r.tell e).readings = r.readings := rfl

@[simp] theorem told_tell (e : ProgressEvent) (r : Record) :
    (r.tell e).told = r.told ++ [(r.readings.getLast?, e)] := rfl

end Record

/-- There is a record in the state of a formatter. -/
structure Formatter.Records {σ : Type} (f : Formatter σ) (record : σ → Record) : Prop where
  clock : ∀ s, record (f.clock s).2 = (record s).read (f.clock s).1
  start : ∀ tell ∈ f.host.progressStart?, ∀ title total s,
    record (tell title total s) = (record s).tell (.start title total)
  update : ∀ tell ∈ f.host.progressUpdate?, ∀ current total s,
    record (tell current total s) = (record s).tell (.update current total)
  finish : ∀ tell ∈ f.host.progressEnd?, ∀ s, record (tell s) = (record s).tell .finish
  line : ∀ replace ∈ f.host.replaceLine?, ∀ n line s, record (replace n line s).state = record s
  all : ∀ replace ∈ f.host.replaceAll?, ∀ lines s, record (replace lines s).state = record s

/-- The same formatter with a record kept beside the state of its host. -/
def Formatter.recorded {σ : Type} (f : Formatter σ) : Formatter (σ × Record) where
  host :=
    { f.host.within Prod.fst fun s t => (s, t.2) with
      progressStart? := f.host.progressStart?.map fun tell title total t =>
        (tell title total t.1, t.2.tell (.start title total))
      progressUpdate? := f.host.progressUpdate?.map fun tell current total t =>
        (tell current total t.1, t.2.tell (.update current total))
      progressEnd? := f.host.progressEnd?.map fun tell t => (tell t.1, t.2.tell .finish) }
  pace := f.pace
  clock t := ((f.clock t.1).1, (f.clock t.1).2, t.2.read (f.clock t.1).1)

theorem Formatter.records_recorded {σ : Type} (f : Formatter σ) :
    f.recorded.Records Prod.snd where
  clock _ := rfl
  start tell htell title total t := by
    obtain ⟨tell', -, rfl⟩ := Option.map_eq_some_iff.mp htell
    rfl
  update tell htell current total t := by
    obtain ⟨tell', -, rfl⟩ := Option.map_eq_some_iff.mp htell
    rfl
  finish tell htell t := by
    obtain ⟨tell', -, rfl⟩ := Option.map_eq_some_iff.mp htell
    rfl
  line replace hr n line t := by
    obtain ⟨replace', -, rfl⟩ := Option.map_eq_some_iff.mp hr
    rfl
  all replace hr lines t := by
    obtain ⟨replace', -, rfl⟩ := Option.map_eq_some_iff.mp hr
    rfl

theorem Formatter.replaceLine?_recorded {σ : Type} (f : Formatter σ) :
    f.recorded.host.replaceLine? = f.host.replaceLine?.map fun replace n line t =>
      ⟨(replace n line t.1).result, ((replace n line t.1).state, t.2)⟩ := rfl

theorem Formatter.replaceAll?_recorded {σ : Type} (f : Formatter σ) :
    f.recorded.host.replaceAll? = f.host.replaceAll?.map fun replace lines t =>
      ⟨(replace lines t.1).result, ((replace lines t.1).state, t.2)⟩ := rfl

/-! ## Steps that tell nothing -/

/-- A step that writes or looks whether to stop. -/
def RunStep.Silent : RunStep → Prop
  | .heedStop | .writeLine .. | .writeAll .. => True
  | _ => False

/-- With such a step a run goes on or is over, and until then nothing is told. -/
theorem FileRun.proceed_silent {σ : Type} {f : Formatter σ} {record : σ → Record}
    (hf : f.Records record) {P : Outcome σ → Prop} {step : RunStep} {stopped : Bool}
    {rest : List RunStep} {p : Progress} {s : σ} (hstep : step.Silent)
    (hnext : ∀ s', record s' = record s → P (proceed f stopped rest p s'))
    (hended : ∀ s', record s' = record s → P (.ended false (p.close f s')))
    (hfailed : ∀ e s', record s' = record s → P (.failed e (p.close f s'))) :
    P (proceed f stopped (step :: rest) p s) := by
  cases step with
  | heedStop =>
      rw [proceed]
      split
      · exact hended s rfl
      · exact hnext s rfl
  | writeLine n line =>
      rw [proceed]
      split
      · exact hnext s rfl
      next replace hr =>
        have hrecord := hf.line replace hr n line s
        split <;> rename_i hresult <;> rw [hresult] at hrecord
        · exact hnext _ hrecord
        · exact hfailed _ _ hrecord
  | writeAll lines =>
      rw [proceed]
      split
      · exact hnext s rfl
      next replace hr =>
        have hrecord := hf.all replace hr lines s
        split <;> rename_i hresult <;> rw [hresult] at hrecord
        · exact hnext _ hrecord
        · exact hfailed _ _ hrecord
  | _ => cases hstep

/-! ## A record makes no difference -/

section Forgetting

variable {σ : Type} (f : Formatter σ)

namespace Progress

variable (p : Progress) (t : σ × Record)

theorem send_recorded (n : Nat) (time : Binary64) :
    (send f.recorded n time p t).map id Prod.fst = send f n time p t.1 := by
  rw [send, send]
  cases hupdate : f.host.progressUpdate? <;> simp [Formatter.recorded, hupdate]

theorem appear_recorded : (p.appear f.recorded t).map id Prod.fst = p.appear f t.1 := by
  cases hstart : f.host.progressStart? <;>
    simp only [appear, Formatter.recorded, hstart, Option.map_none, Option.map_some] <;>
      split <;> try split
  all_goals rfl

theorem advance_recorded (n : Nat) :
    (p.advance f.recorded n t).map id Prod.fst = p.advance f n t.1 := by
  rw [advance, advance]
  split
  · exact (apply_ite (Prod.map id Prod.fst) ..).trans
      (if_congr Iff.rfl rfl (send_recorded f p (f.recorded.clock t).2 n _))
  · rfl

theorem complete_recorded : (p.complete f.recorded t).map id Prod.fst = p.complete f t.1 := by
  rw [complete, complete, ← appear_recorded]
  obtain ⟨p', t'⟩ := p.appear f.recorded t
  dsimp only [Prod.map, id_eq]
  split
  · have hsend := send_recorded f p' (f.recorded.clock t').2 p'.total (f.clock t'.1).1
    exact congrArg (fun x : Progress × σ => ({ x.1 with completed := true }, x.2)) hsend
  · rfl

theorem close_recorded : (p.close f.recorded t).1 = p.close f t.1 := by
  have hsent : (if p.completed then t
      else (send f.recorded p.total (f.clock t.1).1 p (f.recorded.clock t).2).2).1 =
        if p.completed then t.1 else (send f p.total (f.clock t.1).1 p (f.clock t.1).2).2 := by
    split
    · rfl
    · exact congrArg Prod.snd (send_recorded f p (f.recorded.clock t).2 p.total _)
  rw [close, close]
  split
  · dsimp only
    rw [← hsent]
    cases hfinish : f.host.progressEnd? <;> simp [Formatter.recorded, hfinish]
  · rfl

end Progress

namespace FileRun

/-- An outcome without the record. -/
def Outcome.forget {σ : Type} : Outcome (σ × Record) → Outcome σ
  | .paused run t => .paused run t.1
  | .ended changed t => .ended changed t.1
  | .failed e t => .failed e t.1

theorem proceed_recorded (stopped : Bool) (steps : List RunStep) (p : Progress)
    (t : σ × Record) :
    (proceed f.recorded stopped steps p t).forget = proceed f stopped steps p t.1 := by
  induction steps generalizing p t with
  | nil => exact congrArg (Outcome.ended false) (Progress.close_recorded f p t)
  | cons step rest ih =>
      cases step with
      | pause => rfl
      | appear =>
          rw [proceed, proceed, ← Progress.appear_recorded]
          exact ih ..
      | advance n =>
          rw [proceed, proceed, ← Progress.advance_recorded]
          exact ih ..
      | complete =>
          rw [proceed, proceed, ← Progress.complete_recorded]
          exact ih ..
      | finish changed => exact congrArg (Outcome.ended changed) (Progress.close_recorded f p t)
      | heedStop =>
          rw [proceed, proceed]
          split
          · exact congrArg (Outcome.ended false) (Progress.close_recorded f p t)
          · exact ih p t
      | writeLine n line =>
          rw [proceed, proceed, f.replaceLine?_recorded]
          cases f.host.replaceLine? with
          | none => exact ih p t
          | some replace =>
              dsimp only [Option.map_some]
              obtain ⟨result, s⟩ := replace n line t.1
              cases result with
              | ok u => exact ih p (s, t.2)
              | error e => exact congrArg (Outcome.failed e) (Progress.close_recorded f p (s, t.2))
      | writeAll lines =>
          rw [proceed, proceed, f.replaceAll?_recorded]
          cases f.host.replaceAll? with
          | none => exact ih p t
          | some replace =>
              dsimp only [Option.map_some]
              obtain ⟨result, s⟩ := replace lines t.1
              cases result with
              | ok u => exact ih p (s, t.2)
              | error e => exact congrArg (Outcome.failed e) (Progress.close_recorded f p (s, t.2))

theorem plan_recorded (ov : Overrides) (lines : List Text) :
    plan f.recorded ov lines = plan f ov lines := by
  simp only [plan, applySteps, f.replaceLine?_recorded, f.replaceAll?_recorded, Option.isSome_map]
  rfl

end FileRun

namespace Formatter

/-- A result without the record. -/
def FileResult.forget {σ : Type} (r : FileResult (σ × Record)) : FileResult σ :=
  { r with state := r.state.1 }

theorem carryThrough_recorded (stopped : Nat → Bool) (fuel i : Nat)
    (o : FileRun.Outcome (σ × Record)) :
    (f.recorded.carryThrough stopped fuel i o).forget =
      f.carryThrough stopped fuel i o.forget := by
  induction fuel generalizing i o with
  | zero => cases o <;> rfl
  | succ fuel ih =>
      cases o with
      | paused run t =>
          rw [FileRun.Outcome.forget, carryThrough, carryThrough, ih]
          exact congrArg _ (FileRun.proceed_recorded f (stopped (i + 1)) run.rest run.progress t)
      | ended changed t => rfl
      | failed e t => rfl

/-- A run goes as it would if no record were kept. -/
theorem formatFile_recorded (ov : Overrides) (lines : List (Option Text))
    (stopBefore : Option Nat) (t : σ × Record) :
    (f.recorded.formatFile ov lines stopBefore t).forget =
      f.formatFile ov lines stopBefore t.1 := by
  have hstart : ∀ stopped, (f.recorded.startFile ov lines stopped t).forget =
      f.startFile ov lines stopped t.1 := by
    intro stopped
    rw [startFile, startFile]
    split
    · rfl
    · dsimp only
      rw [FileRun.plan_recorded]
      exact FileRun.proceed_recorded f stopped _ _ _
  have hleft : ∀ o : FileRun.Outcome (σ × Record),
      o.forget.stretchesLeft = o.stretchesLeft := by
    rintro (_ | _ | _) <;> rfl
  rw [formatFile_eq, formatFile_eq, carryThrough_recorded, hstart, ← hstart, hleft]

end Formatter

end Forgetting

end TaskLine
