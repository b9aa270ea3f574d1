import TaskLine.Formatter.Basic

/-!
# Progress of a run

Progress is shown only once a run has taken a while, and updated only so often.
A run whose progress was shown always reports that it is done before the display
is taken away, also when it was stopped or failed.
-/

namespace TaskLine

/-- What a run knows about the progress that it shows. -/
structure Progress where
  total : Nat
  /-- The clock when the run began. -/
  startedAt : Binary64
  visible : Bool := false
  /-- Whether it was reported that the run is done. -/
  completed : Bool := false
  lastUpdate : Option Binary64 := none
deriving Repr

namespace Progress

variable {σ : Type}

/-- The title under which progress is shown. -/
def title : Text := "Formatting tasks. Please wait…".toList

/-- Begin to keep track, without showing anything. -/
def begin (f : Formatter σ) (total : Nat) (s : σ) : Progress × σ :=
  let (t, s) := f.clock s
  ({ total, startedAt := t }, s)

/-- Tell the host how much is done. -/
def send (f : Formatter σ) (current : Nat) (time : Binary64) (p : Progress) (s : σ) :
    Progress × σ :=
  let p := { p with lastUpdate := some time }
  match f.host.progressUpdate? with
  | some update => (p, update current p.total s)
  | none => (p, s)

/-- Show progress if the run has taken long enough. -/
def appear (f : Formatter σ) (p : Progress) (s : σ) : Progress × σ :=
  if p.visible then (p, s)
  else
    let (t, s) := f.clock s
    if Binary64.lt (t.sub p.startedAt) f.pace.showAfter then (p, s)
    else
      let p := { p with visible := true, lastUpdate := none }
      match f.host.progressStart? with
      | some start => (p, start title p.total s)
      | none => (p, s)

/-- Whether it is too early for another update. -/
def tooSoon (f : Formatter σ) (p : Progress) (time : Binary64) : Bool :=
  match p.lastUpdate with
  | some last => Binary64.lt (time.sub last) f.pace.minInterval
  | none => false

/-- Report how much is done, if that is shown and the last report is old enough. -/
def advance (f : Formatter σ) (current : Nat) (p : Progress) (s : σ) : Progress × σ :=
  if p.visible then
    let (t, s) := f.clock s
    if p.tooSoon f t then (p, s) else send f current t p s
  else (p, s)

/-- Report that everything is done. -/
def complete (f : Formatter σ) (p : Progress) (s : σ) : Progress × σ :=
  let (p, s) := p.appear f s
  if p.visible then
    let (t, s) := f.clock s
    let (p, s) := send f p.total t p s
    ({ p with completed := true }, s)
  else (p, s)

/-- Take the display away. -/
def close (f : Formatter σ) (p : Progress) (s : σ) : σ :=
  if p.visible then
    let s :=
      if p.completed then s
      else
        let (t, s) := f.clock s
        (send f p.total t p s).2
    match f.host.progressEnd? with
    | some finish => finish s
    | none => s
  else s

end Progress

end TaskLine
