import TaskLine.Format
import TaskLine.Formatter.Progress

/-!
# Formatting a whole file

A run over a whole file is planned from the lines that it is given: what to do
for each line, where to pause, and what to write in the end. The plan is carried
out up to the next pause, so a paused run is the rest of its plan. Whether the
run was stopped is looked at behind each pause.

Where the host can replace all lines at once everything is written in one go;
otherwise line by line, with pauses. A run reports whether it changed anything.
-/

namespace TaskLine

/-- What a run does next. -/
inductive RunStep where
  /-- Show progress if it is time to. -/
  | appear
  /-- Report how many lines are done. -/
  | advance (current : Nat)
  /-- Let others work. -/
  | pause
  /-- Give up if the run was stopped. -/
  | heedStop
  | writeLine (n : Nat) (line : Text)
  | writeAll (lines : List Text)
  /-- Report that everything is done. -/
  | complete
  | finish (changed : Bool)
deriving DecidableEq, Repr

/-- A paused run. -/
structure FileRun where
  rest : List RunStep
  progress : Progress
deriving Repr

namespace FileRun

variable {σ : Type}

/-- The lines that a run is given; one that is missing counts as empty. -/
def filled (lines : List (Option Text)) : List Text := lines.map (·.getD [])

/-- What is done while the line of a number is formatted. -/
def scanSteps (pace : Pace) (i : Nat) : List RunStep :=
  (if i % pace.chunkSize == 0 then [.appear, .advance i] else [])
    ++ if pace.pausesAfter i then [.pause, .heedStop, .appear] else []

/-- What is done to write a line that is `old`. -/
def writeSteps (pace : Pace) (total i : Nat) (old new : Text) : List RunStep :=
  (if new = old then [] else [.writeLine i new])
    ++ if pace.pausesAfter i then
        [.pause, .heedStop, .appear, .advance (min (i + 1) total)]
      else []

/-- What is done to write all lines, each given with what it is now. -/
def writeLines (pace : Pace) (total : Nat) : Nat → List (Text × Text) → List RunStep
  | _, [] => []
  | i, (old, new) :: rest => writeSteps pace total i old new ++ writeLines pace total (i + 1) rest

/-- How the formatted lines get into the host. -/
def applySteps (f : Formatter σ) (old new : List Text) : List RunStep :=
  if f.host.replaceAll?.isSome then [.writeAll new, .complete, .finish true]
  else if f.host.replaceLine?.isSome then
    writeLines f.pace old.length 0 (old.zip new) ++ [.complete, .finish true]
  else [.finish false]

/-- The plan of a run over some lines. -/
def plan (f : Formatter σ) (ov : Overrides) (lines : List Text) : List RunStep :=
  let new := lines.map (formatIndented ov)
  (List.range lines.length).flatMap (scanSteps f.pace)
    ++ .heedStop :: if new = lines then [.complete, .finish false] else applySteps f lines new

/-- How far a run came. -/
inductive Outcome (σ : Type) where
  | paused (run : FileRun) (state : σ)
  | ended (changed : Bool) (state : σ)
  | failed (fault : RunFault) (state : σ)

/-- Carry out a plan up to the next pause. -/
def proceed (f : Formatter σ) (stopped : Bool) : List RunStep → Progress → σ → Outcome σ
  | [], p, s => .ended false (p.close f s)
  | .appear :: rest, p, s =>
    let (p, s) := p.appear f s
    proceed f stopped rest p s
  | .advance n :: rest, p, s =>
    let (p, s) := p.advance f n s
    proceed f stopped rest p s
  | .pause :: rest, p, s => .paused ⟨rest, p⟩ s
  | .heedStop :: rest, p, s =>
    if stopped then .ended false (p.close f s) else proceed f stopped rest p s
  | .writeLine n line :: rest, p, s =>
    match f.host.replaceLine? with
    | none => proceed f stopped rest p s
    | some replace =>
      match replace n line s with
      | ⟨.ok (), s⟩ => proceed f stopped rest p s
      | ⟨.error e, s⟩ => .failed e (p.close f s)
  | .writeAll lines :: rest, p, s =>
    match f.host.replaceAll? with
    | none => proceed f stopped rest p s
    | some replace =>
      match replace lines s with
      | ⟨.ok (), s⟩ => proceed f stopped rest p s
      | ⟨.error e, s⟩ => .failed e (p.close f s)
  | .complete :: rest, p, s =>
    let (p, s) := p.complete f s
    proceed f stopped rest p s
  | .finish changed :: _, p, s => .ended changed (p.close f s)

/-- Go on with a paused run. -/
def resume (f : Formatter σ) (stopped : Bool) (run : FileRun) (s : σ) : Outcome σ :=
  proceed f stopped run.rest run.progress s

/-- How often a run will still pause. -/
def pauses (run : FileRun) : Nat := run.rest.count .pause

end FileRun

namespace Formatter

variable {σ : Type}

/-- Begin a run over some lines. A file without lines has nothing to format. -/
def startFile (f : Formatter σ) (ov : Overrides) (lines : List (Option Text)) (stopped : Bool)
    (s : σ) : FileRun.Outcome σ :=
  let lines := FileRun.filled lines
  if lines.isEmpty then .ended false s
  else
    let (p, s) := Progress.begin f lines.length s
    FileRun.proceed f stopped (FileRun.plan f ov lines) p s

/-- What became of a run that was carried through. -/
structure FileResult (σ : Type) where
  result : Except RunFault Bool
  /-- The number of stretches between pauses. -/
  stretches : Nat
  /-- Whether the run was told to stop while it was under way. -/
  stopped : Bool
  state : σ

/-- Carry a run through, pause by pause; `i` is the number of the stretch that
has just ended. -/
def carryThrough (f : Formatter σ) (stopped : Nat → Bool) :
    Nat → Nat → FileRun.Outcome σ → FileResult σ
  | fuel + 1, i, .paused run s =>
    carryThrough f stopped fuel (i + 1) (run.resume f (stopped (i + 1)) s)
  | 0, i, .paused _ s => ⟨.ok false, i + 1, stopped i, s⟩
  | _, i, .ended changed s => ⟨.ok changed, i + 1, stopped i, s⟩
  | _, i, .failed e s => ⟨.error e, i + 1, stopped i, s⟩

/-- Format a whole file. If `stopBefore` is given, the run is told to stop just
before the stretch of that number. -/
def formatFile (f : Formatter σ) (ov : Overrides) (lines : List (Option Text))
    (stopBefore : Option Nat) (s : σ) : FileResult σ :=
  let stopped := fun i => match stopBefore with
    | some k => decide (k ≤ i)
    | none => false
  let first := f.startFile ov lines (stopped 0) s
  let pauses := match first with
    | .paused run _ => run.pauses + 1
    | _ => 0
  carryThrough f stopped pauses 0 first

end Formatter

end TaskLine
