import TaskLine.Proofs.Formatter.Stopping
import TaskLine.Schedule.Loop

/-!
# What the operations of the scheduler do

Most of what an operation touches is of no concern to scheduling: the world, the records that
are kept, who unsubscribes, and the marks of runs that were told to stop. Two machines that
differ in nothing else are *alike* (`Alike`). Up to that, each operation is one of a few: a
timer is armed (`arm`), a run is enrolled (`enrol`), it comes to a pause (`park`) or to its end
(`finishRun`).

What can become of a run that goes on is said once, in `goneOn_advanceRun`. What follows here is
derived from it, and from the equations for requests that come in.
-/

namespace TaskLine

variable {σ : Type} {c : Setup σ}

/-- A run without the mark that it was told to stop. -/
def Run.unmarked (t : Run) : Run := { t with stopped := false }

@[simp] theorem Run.unmarked_id (t : Run) : t.unmarked.id = t.id := rfl

@[simp] theorem Run.unmarked_request (t : Run) : t.unmarked.request = t.request := rfl

@[simp] theorem Run.unmarked_paused (t : Run) : t.unmarked.paused = t.paused := rfl

theorem Run.ids_of_unmarked {ts us : List Run} (h : us.map Run.unmarked = ts.map Run.unmarked) :
    us.map (·.id) = ts.map (·.id) := by
  have hids := congrArg (List.map (·.id)) h
  simpa only [List.map_map, Function.comp_def, Run.unmarked_id] using hids

namespace Setup

/-- The switches as they are read in a world; all are off if they cannot be read. -/
def flags (c : Setup σ) (s : σ) : Flags :=
  match (c.switches s).2 with
  | .ok flags => flags
  | .error _ => .off

/-- The call of the formatter that a run for a request makes in a world; a run for the file makes
none if the host does not tell its lines. -/
def entry? (c : Setup σ) (r : Request) (s : σ) : Option Call :=
  if r.scope = .file then (c.allLines?.bind fun f => f s).map fun lines => .file lines.length
  else match r.target with
    | some n => some (.line n)
    | none => some .current

end Setup

namespace Machine

variable {m m₁ m₂ : Machine σ} {id : Nat} {r : Request}

/-! ## What scheduling does not look at -/

/-- Two machines that differ only in what scheduling does not look at. -/
def Alike (m m' : Machine σ) : Prop :=
  ∃ world attached signal held told calls warnings runs,
    m' = { m with world, attached, signal, held, told, calls, warnings, runs } ∧
      m.calls <:+ calls ∧ runs.map Run.unmarked = m.runs.map Run.unmarked

theorem Alike.refl (m : Machine σ) : Alike m m :=
  ⟨_, _, _, _, _, _, _, _, rfl, List.suffix_rfl, rfl⟩

theorem Alike.trans (h₁ : Alike m m₁) (h₂ : Alike m₁ m₂) : Alike m m₂ := by
  obtain ⟨_, _, _, _, _, _, _, _, rfl, hcalls₁, hruns₁⟩ := h₁
  obtain ⟨_, _, _, _, _, _, _, _, rfl, hcalls₂, hruns₂⟩ := h₂
  exact ⟨_, _, _, _, _, _, _, _, rfl, hcalls₁.trans hcalls₂, hruns₂.trans hruns₁⟩

theorem Alike.nextId (h : Alike m m₁) : m₁.nextId = m.nextId := by
  obtain ⟨_, _, _, _, _, _, _, _, rfl, -, -⟩ := h
  rfl

theorem Alike.ids (h : Alike m m₁) : m₁.runs.map (·.id) = m.runs.map (·.id) := by
  obtain ⟨_, _, _, _, _, _, _, _, rfl, -, hruns⟩ := h
  exact Run.ids_of_unmarked hruns

theorem alike_world (s : σ) (m : Machine σ) : Alike m { m with world := s } :=
  ⟨_, _, _, _, _, _, _, _, rfl, List.suffix_rfl, rfl⟩

theorem alike_calls (entry : Call) (m : Machine σ) :
    Alike m { m with calls := entry :: m.calls } :=
  ⟨_, _, _, _, _, _, _, _, rfl, List.suffix_cons _ _, rfl⟩

theorem alike_warnings (warnings : List Warning) (m : Machine σ) : Alike m { m with warnings } :=
  ⟨_, _, _, _, _, _, _, _, rfl, List.suffix_rfl, rfl⟩

theorem alike_warn (w : Warning) (m : Machine σ) : Alike m (m.warn w) :=
  alike_warnings _ m

theorem alike_foldl {α : Type} {f : Machine σ → α → Machine σ} (hf : ∀ m a, Alike m (f m a))
    (as : List α) (m : Machine σ) : Alike m (as.foldl f m) := by
  induction as generalizing m with
  | nil => exact .refl m
  | cons a as ih => exact (hf m a).trans (ih (f m a))

theorem alike_stopRun (m : Machine σ) : Alike m m.stopRun := by
  cases hs : m.signal with
  | none =>
      rw [stopRun, hs]
      exact .refl m
  | some id =>
      have hmarks : (m.runs.map fun t => if t.id = id then { t with stopped := true } else t).map
          Run.unmarked = m.runs.map Run.unmarked := by
        rw [List.map_map]
        refine List.map_congr_left fun t _ => ?_
        simp only [Function.comp_apply]
        split <;> rfl
      rw [stopRun, hs]
      exact ⟨_, _, _, _, _, _, _, _, rfl, List.suffix_rfl, hmarks⟩

theorem foldl_warn (ws : List Warning) (m : Machine σ) :
    ∃ warnings, ws.foldl (fun m w => m.warn w) m = { m with warnings } := by
  induction ws generalizing m with
  | nil => exact ⟨_, rfl⟩
  | cons w ws ih => exact ih (m.warn w)

theorem readSwitches_eq (c : Setup σ) (m : Machine σ) :
    ∃ warnings, m.readSwitches c = (c.flags m.world, { m with warnings }) := by
  rw [readSwitches.eq_def, Setup.flags]
  obtain ⟨ws, flags⟩ := c.switches m.world
  obtain ⟨warnings, hwarned⟩ := foldl_warn ws m
  dsimp only
  rw [hwarned]
  cases flags <;> exact ⟨_, rfl⟩

/-- Looking whether the scheduler is at rest puts that down, and may wake who waits for it. -/
theorem exists_refresh (m : Machine σ) :
    ∃ ready waiting, m.refresh = { m with idle := m.atRest, ready, waiting } := by
  rw [refresh]
  split
  next hrest =>
    split
    next hidle =>
      refine ⟨m.ready, m.waiting, ?_⟩
      rw [hrest, ← hidle]
    next =>
      rw [hrest]
      exact ⟨_, _, rfl⟩
  next hrest =>
    rw [Bool.eq_false_iff.mpr hrest]
    exact ⟨_, _, rfl⟩

/-- Between two machines the formatter was not called and the world was left alone. -/
structure Quiet (m m' : Machine σ) : Prop where
  world : m'.world = m.world
  calls : m'.calls = m.calls

theorem Quiet.trans (h₁ : Quiet m m₁) (h₂ : Quiet m₁ m₂) : Quiet m m₂ :=
  ⟨h₂.world.trans h₁.world, h₂.calls.trans h₁.calls⟩

theorem quiet_refresh (m : Machine σ) : Quiet m m.refresh := by
  obtain ⟨_, _, h⟩ := exists_refresh m
  rw [h]
  exact ⟨rfl, rfl⟩

theorem quiet_stopRun (m : Machine σ) : Quiet m m.stopRun := by
  rw [stopRun]
  split <;> exact ⟨rfl, rfl⟩

theorem armed_disarm (m : Machine σ) : m.disarm.armed = none := by
  rw [disarm]
  split
  · assumption
  · rfl

theorem disposed_disarm (m : Machine σ) : m.disarm.disposed = m.disposed := by
  rw [disarm]
  split <;> rfl

/-! ## Requests that come in -/

/-- Arm a timer for a request. -/
def arm (c : Setup σ) (r : Request) (m : Machine σ) : Machine σ :=
  { m with
    timers := m.timers ++ [⟨m.nextId, m.now + c.delay, r⟩]
    armed := some m.nextId
    nextId := m.nextId + 1 }

/-- Enrol a run for a request. -/
def enrol (r : Request) (m : Machine σ) : Machine σ :=
  { m with
    runs := m.runs ++ [{ id := m.nextId, request := r }]
    ready := m.ready ++ [.run m.nextId]
    nextId := m.nextId + 1 }

theorem dispatch_of_disposed {live : Bool} (h : m.disposed = true) :
    m.dispatch c live r = ⟨.ok (), m.refresh⟩ := by
  rw [dispatch, if_pos h]

/-- A request that comes while another is being run is queued. -/
theorem dispatch_of_running (c : Setup σ) (live : Bool) (r : Request) {current : Request}
    (hd : m.disposed = false) (h : m.running = some current) :
    ∃ m₁, Alike m m₁ ∧ m.dispatch c live r = ⟨.ok (), refresh { m₁ with queued := some r }⟩ := by
  rw [dispatch, if_neg (by simp [hd]), h]
  dsimp only
  split
  · exact ⟨_, alike_stopRun m, rfl⟩
  · exact ⟨_, .refl m, rfl⟩

theorem dispatch_of_idle {live : Bool} (hlive : (live || c.ownLoop) = true)
    (hd : m.disposed = false) (h : m.running = none) :
    m.dispatch c live r = ⟨.ok (), (refresh { m with running := some r }).enrol r⟩ := by
  rw [dispatch, if_neg (by simp [hd]), h]
  dsimp only
  rw [if_pos hlive]
  rfl

theorem quiet_dispatch {live : Bool} : Quiet m (m.dispatch c live r).state := by
  rw [dispatch]
  split
  · exact quiet_refresh m
  · split
    · have hqueued : ∀ m₁ : Machine σ, Quiet m₁ (refresh { m₁ with queued := some r }) := by
        intro m₁
        have hset : Quiet m₁ { m₁ with queued := some r } := ⟨rfl, rfl⟩
        exact hset.trans (quiet_refresh _)
      dsimp only
      split
      · exact (quiet_stopRun m).trans (hqueued _)
      · exact hqueued m
    · have hbegun := quiet_refresh { m with running := some r }
      dsimp only
      split <;> exact ⟨hbegun.world, hbegun.calls⟩

/-- Two machines that differ in their warnings at most. -/
def Warned (m m' : Machine σ) : Prop := ∃ warnings, m' = { m with warnings }

theorem Warned.alike (h : Warned m m₁) : Alike m m₁ := by
  obtain ⟨warnings, rfl⟩ := h
  exact alike_warnings warnings m

/-- What a request that is to wait for its time comes to. A timer that was armed is ended before
the switches are looked at, and before there has to be a loop. -/
inductive Triggered (c : Setup σ) (live : Bool) (m : Machine σ) :
    Except RequestFault Request → Attempt TriggerFault (Machine σ) Bool → Prop where
  | disposed (asked : Except RequestFault Request) (hd : m.disposed = true) :
    Triggered c live m asked ⟨.ok false, m⟩
  | misread (e : RequestFault) (hd : m.disposed = false) :
    Triggered c live m (.error e) ⟨.error (.request e), m⟩
  | refused (r : Request) (m₁ : Machine σ) (hd : m.disposed = false) (hm : Warned m.disarm m₁) :
    Triggered c live m (.ok r) ⟨.ok false, m₁.refresh⟩
  | armed (r : Request) (m₁ : Machine σ) (hd : m.disposed = false) (hm : Warned m.disarm m₁)
      (hlive : (live || c.ownLoop) = true) :
    Triggered c live m (.ok r) ⟨.ok true, (m₁.arm c r).refresh⟩
  /-- There is no loop. -/
  | stranded (r : Request) (m₁ : Machine σ) (hd : m.disposed = false) (hm : Warned m.disarm m₁)
      (hlive : (live || c.ownLoop) = false) :
    Triggered c live m (.ok r) ⟨.error .noLoop, m₁⟩

theorem triggered (c : Setup σ) (live : Bool) (asked : Except RequestFault Request)
    (m : Machine σ) : Triggered c live m asked (m.trigger c live asked) := by
  rw [trigger.eq_def]
  by_cases hd : m.disposed = true
  · rw [if_pos hd]
    exact .disposed asked hd
  · rw [if_neg hd]
    have hd : m.disposed = false := Bool.eq_false_iff.mpr hd
    cases asked with
    | error e => exact .misread e hd
    | ok r =>
        obtain ⟨warnings, hread⟩ := readSwitches_eq c m.disarm
        simp only [hread]
        split
        · exact .refused r _ hd ⟨warnings, rfl⟩
        · split
          next hlive => exact .armed r _ hd ⟨warnings, rfl⟩ hlive
          next hlive => exact .stranded r _ hd ⟨warnings, rfl⟩ (Bool.eq_false_iff.mpr hlive)

/-- What a request that is to be run at once comes to. -/
inductive TriggeredNow (c : Setup σ) (live : Bool) (m : Machine σ) :
    Except RequestFault Request → Attempt TriggerFault (Machine σ) Bool → Prop where
  | disposed (asked : Except RequestFault Request) (hd : m.disposed = true) :
    TriggeredNow c live m asked ⟨.ok false, m⟩
  | misread (e : RequestFault) (hd : m.disposed = false) :
    TriggeredNow c live m (.error e) ⟨.error (.request e), m⟩
  | refused (r : Request) (m₁ : Machine σ) (hd : m.disposed = false) (hm : Warned m m₁) :
    TriggeredNow c live m (.ok r) ⟨.ok false, m₁⟩
  | dispatched (r : Request) (m₁ : Machine σ) (hd : m.disposed = false) (hm : Warned m m₁) :
    TriggeredNow c live m (.ok r) ⟨(m₁.disarm.dispatch c live r).result.map fun _ => true,
      (m₁.disarm.dispatch c live r).state⟩

theorem triggeredNow (c : Setup σ) (live : Bool) (asked : Except RequestFault Request)
    (m : Machine σ) : TriggeredNow c live m asked (m.triggerNow c live asked) := by
  rw [triggerNow.eq_def]
  by_cases hd : m.disposed = true
  · rw [if_pos hd]
    exact .disposed asked hd
  · rw [if_neg hd]
    have hd : m.disposed = false := Bool.eq_false_iff.mpr hd
    cases asked with
    | error e => exact .misread e hd
    | ok r =>
        obtain ⟨warnings, hread⟩ := readSwitches_eq c m
        have hdispatched : TriggeredNow c live m (.ok r) _ := .dispatched r _ hd ⟨warnings, rfl⟩
        simp only [hread]
        split
        · exact .refused r _ hd ⟨warnings, rfl⟩
        · generalize dispatch c live r _ = x at hdispatched ⊢
          obtain ⟨_ | _, _⟩ := x <;> exact hdispatched

theorem trigger_of_disposed (c : Setup σ) (live : Bool) (asked : Except RequestFault Request)
    (h : m.disposed = true) : m.trigger c live asked = ⟨.ok false, m⟩ := by
  rw [trigger.eq_def, if_pos h]

theorem triggerNow_of_disposed (c : Setup σ) (live : Bool) (asked : Except RequestFault Request)
    (h : m.disposed = true) : m.triggerNow c live asked = ⟨.ok false, m⟩ := by
  rw [triggerNow.eq_def, if_pos h]

/-- An event of the host comes to what its request comes to. -/
theorem notice_alike {live : Bool} {n : Notice} :
    Alike (m.trigger c live (.ok (requestOf n))).state (m.notice c live n) := by
  rw [notice]
  split <;> rename_i h <;> rw [h]
  · exact .refl _
  · exact alike_warn _ _

theorem alike_subscribe (event : HostEvent) (hook : σ → Subscription × σ) (m : Machine σ) :
    Alike m (m.subscribe event hook) := by
  rw [subscribe.eq_def]
  dsimp only
  split
  · exact ⟨_, _, _, _, _, _, _, _, rfl, List.suffix_rfl, rfl⟩
  · exact alike_world _ m
  · exact (alike_world _ m).trans (alike_warn _ _)

/-- Attaching comes to nothing, or to what a single request comes to. -/
theorem attach_alike (c : Setup σ) (live : Bool) (m : Machine σ) :
    Alike m (m.attach c live) ∨ ∃ m₁ asked, Alike m m₁ ∧
      Alike (m₁.trigger c live asked).state (m.attach c live) := by
  rw [attach]
  split
  · exact .inl (.refl m)
  · dsimp only
    generalize hoffered : events.filterMap (fun e => (c.subscribe? e).map fun hook => (e, hook)) =
      offered
    have hsubscribed : Alike m (offered.foldl (fun m o => m.subscribe o.1 o.2)
        { m with attached := true }) :=
      Alike.trans ⟨_, true, _, _, _, _, _, _, rfl, List.suffix_rfl, rfl⟩
        (alike_foldl (fun m o => alike_subscribe o.1 o.2 m) offered _)
    split
    · refine .inr ⟨_, .ok { reason := .manual, scope := .line }, hsubscribed, ?_⟩
      split <;> rename_i h <;> rw [h]
      · exact .refl _
      · exact alike_warn _ _
    · exact .inl hsubscribed

theorem foldl_unsubscribe (c : Setup σ) (es : List HostEvent) (m : Machine σ) :
    ∃ world warnings, es.foldl (fun m e => m.unsubscribe c e) m = { m with world, warnings } := by
  induction es generalizing m with
  | nil => exact ⟨_, _, rfl⟩
  | cons e es ih =>
      have hone : ∃ world warnings, m.unsubscribe c e = { m with world, warnings } := by
        rw [unsubscribe.eq_def]
        dsimp only
        split <;> exact ⟨_, _, rfl⟩
      obtain ⟨_, _, hone⟩ := hone
      rw [List.foldl_cons, hone]
      exact ih _

/-- Disposing ends the timer that was armed, tells the run that is under way to stop and drops the
request that was queued. -/
theorem dispose_eq (c : Setup σ) (m : Machine σ) :
    ∃ world warnings, m.dispose c = refresh { stopRun (disarm { m with disposed := true }) with
      held := [], world, warnings, queued := none } := by
  rw [dispose]
  obtain ⟨_, _, hleft⟩ := foldl_unsubscribe c (stopRun (disarm { m with disposed := true })).held
    { stopRun (disarm { m with disposed := true }) with held := [] }
  dsimp only
  rw [hleft]
  exact ⟨_, _, rfl⟩

theorem dispose_cases (c : Setup σ) (m : Machine σ) :
    ∃ m₁, Alike (disarm { m with disposed := true }) m₁ ∧
      m.dispose c = refresh { m₁ with queued := none } := by
  obtain ⟨world, warnings, heq⟩ := dispose_eq c m
  exact ⟨_, (alike_stopRun _).trans ⟨world, _, _, [], _, _, warnings, _, rfl, List.suffix_rfl, rfl⟩,
    heq⟩

/-- What the end of every subscription keeps of the world, disposing keeps. -/
theorem world_dispose {P : σ → Prop} (hunsubscribe : ∀ e s, P s → P (c.unsubscribe e s).2)
    (h : P m.world) : P (m.dispose c).world := by
  have hleft : ∀ (es : List HostEvent) (m : Machine σ), P m.world →
      P (es.foldl (fun m e => m.unsubscribe c e) m).world := by
    intro es
    induction es with
    | nil => exact fun m hm => hm
    | cons e es ih =>
        intro m hm
        refine ih _ ?_
        dsimp only
        rw [unsubscribe.eq_def]
        dsimp only
        split <;> exact hunsubscribe e m.world hm
  have hworld : (stopRun (disarm { m with disposed := true })).world = m.world := by
    rw [(quiet_stopRun _).world, disarm]
    split <;> rfl
  rw [dispose, (quiet_refresh _).world]
  exact hleft _ _ (hworld.symm ▸ h)

/-! ## Runs that go on -/

/-- The accounts of a run are closed. -/
def cease (id : Nat) (m : Machine σ) : Machine σ :=
  { m with
    running := none
    signal := none
    queued := none
    runs := m.runs.filter fun t => t.id != id }

theorem finishRun_eq : m.finishRun c id = match m.queued with
    | none => (m.cease id).refresh
    | some r =>
      if m.disposed then (m.cease id).refresh
      else ((m.cease id).dispatch c true r).state.refresh := rfl

theorem quiet_finishRun : Quiet m (m.finishRun c id) := by
  have hended : Quiet m (m.cease id) := ⟨rfl, rfl⟩
  rw [finishRun_eq]
  split
  · exact hended.trans (quiet_refresh _)
  · split
    · exact hended.trans (quiet_refresh _)
    · exact (hended.trans quiet_dispatch).trans (quiet_refresh _)

/-- A run comes to a pause. -/
def park (id : Nat) (run : FileRun) (m : Machine σ) : Machine σ :=
  { m with
    runs := m.runs.map fun u => if u.id = id then { u with paused := some run } else u
    ready := m.ready ++ [.run id] }

/-- A run for the file that begins is the one whose stop signal is held. -/
def signalled (id : Nat) (m : Machine σ) : Machine σ := { m.stopRun with signal := some id }

/-- A run came to its end, when nothing had changed that scheduling looks at. -/
def Ends (c : Setup σ) (id : Nat) (m m' : Machine σ) : Prop :=
  ∃ m₁, Alike m m₁ ∧ m' = m₁.finishRun c id

/-- A run came to a pause at which it heeds what it is told, when only the world and the records
had changed. -/
def Parks (id : Nat) (m m' : Machine σ) : Prop :=
  ∃ run world calls warnings, run.Heeds ∧ m.calls <:+ calls ∧
    m' = park id run { m with world, calls, warnings }

/-- A run has gone on, and then came to its end or to a pause. -/
def GoneOn (c : Setup σ) (id : Nat) (m m' : Machine σ) : Prop :=
  ∃ m₁, Alike m m₁ ∧ (m' = m₁.finishRun c id ∨ ∃ run, m' = m₁.park id run)

theorem ends_finishRun (c : Setup σ) (id : Nat) (m : Machine σ) : Ends c id m (m.finishRun c id) :=
  ⟨m, .refl m, rfl⟩

theorem Alike.ends (h : Alike m m₁) (hends : Ends c id m₁ m₂) : Ends c id m m₂ := by
  obtain ⟨_, halike, heq⟩ := hends
  exact ⟨_, h.trans halike, heq⟩

theorem Ends.goneOn (h : Ends c id m m₁) : GoneOn c id m m₁ := by
  obtain ⟨_, halike, heq⟩ := h
  exact ⟨_, halike, .inl heq⟩

theorem Alike.goneOn (h : Alike m m₁) (hparks : Parks id m₁ m₂) : GoneOn c id m m₂ := by
  obtain ⟨run, _, _, _, -, hcalls, heq⟩ := hparks
  exact ⟨_, h.trans ⟨_, _, _, _, _, _, _, _, rfl, hcalls, rfl⟩, .inr ⟨run, heq⟩⟩

variable {t : Run}

theorem ends_failRun (message : Text) : Ends c t.id m (m.failRun c t message) :=
  (alike_warn _ m).ends (ends_finishRun c t.id _)

/-- A call of the formatter fails, or does its work. -/
theorem call_cases (c : Setup σ) (t : Run) (entry : Call) (work : Machine σ → Machine σ)
    (m : Machine σ) :
    Ends c t.id { m with calls := entry :: m.calls } (m.call c t entry work) ∨
      m.call c t entry work = work { m with calls := entry :: m.calls } := by
  rw [call.eq_def]
  dsimp only
  split
  · exact .inl (ends_failRun _)
  · exact .inr rfl

theorem fileProceeded_cases (c : Setup σ) (t : Run) (stopped : Bool) (o : FileRun.Outcome σ)
    (m : Machine σ) :
    Ends c t.id m (m.fileProceeded c t stopped o) ∨ ∃ run world, o = .paused run world ∧
      m.fileProceeded c t stopped o = park t.id run { m with world } := by
  cases o with
  | paused run world => exact .inr ⟨run, world, rfl, rfl⟩
  | ended changed world =>
      exact .inl ((alike_world world m).ends
        ((alike_calls (.fileEnd changed stopped) _).ends (ends_finishRun c t.id _)))
  | failed e world => exact .inl ((alike_world world m).ends (ends_failRun _))

theorem ends_lineFormatted (x : Attempt RunFault σ Bool) :
    Ends c t.id m (m.lineFormatted c t x) := by
  obtain ⟨_ | _, world⟩ := x
  · exact (alike_world world m).ends (ends_failRun _)
  · exact (alike_world world m).ends (ends_finishRun c t.id _)

/-- A run for a single line does not pause. -/
theorem ends_call (entry : Call) (x : Machine σ → Attempt RunFault σ Bool) :
    Ends c t.id { m with calls := entry :: m.calls }
      (m.call c t entry fun m => m.lineFormatted c t (x m)) := by
  obtain hends | heq := call_cases c t entry (fun m => m.lineFormatted c t (x m)) m
  · exact hends
  · rw [heq]
    exact ends_lineFormatted _

theorem alike_called (entry : Call) (h : Alike m m₁) (hcalls : m₁.calls = m.calls) :
    Alike { m with calls := entry :: m.calls } { m₁ with calls := entry :: m₁.calls } := by
  obtain ⟨_, _, _, _, _, _, _, _, rfl, -, hruns⟩ := h
  obtain rfl := hcalls
  exact ⟨_, _, _, _, _, _, _, _, rfl, List.suffix_rfl, hruns⟩

/-- A run for the file begins alike, but for the signal. -/
theorem alike_signalled (id : Nat) (entry : Call) (m : Machine σ) :
    Alike { m with calls := entry :: m.calls }
      { m.signalled id with calls := entry :: (m.signalled id).calls } :=
  alike_called entry
    ((alike_stopRun m).trans ⟨_, _, some id, _, _, _, _, _, rfl, List.suffix_rfl, rfl⟩)
    (quiet_stopRun m).calls

theorem signalled_warnings (id : Nat) (warnings : List Warning) (m : Machine σ) :
    signalled id { m with warnings } = { m.signalled id with warnings } := by
  simp only [signalled, stopRun]
  split <;> rfl

/-- A run for the file begins by calling the formatter for the lines that the host tells. -/
theorem beginFile_cases :
    (c.allLines?.bind fun f => f m.world) = none ∧ m.beginFile c t = m.finishRun c t.id ∨
      ∃ lines, (c.allLines?.bind fun f => f m.world) = some lines ∧
        let entry := Call.file lines.length
        Ends c t.id { m with calls := entry :: m.calls } (m.beginFile c t) ∨
          Parks t.id { m.signalled t.id with calls := entry :: (m.signalled t.id).calls }
            (m.beginFile c t) := by
  rw [beginFile.eq_def]
  cases c.allLines?.bind fun f => f m.world with
  | none => exact .inl ⟨rfl, rfl⟩
  | some lines =>
      refine .inr ⟨lines, rfl, ?_⟩
      intro entry
      have hbegun := alike_signalled t.id entry m
      obtain hends | heq := call_cases c t entry
        (fun m => m.fileProceeded c t false
          (c.formatter.startFile {} (lines.map some) false m.world)) (m.signalled t.id)
      · exact .inl (hbegun.ends hends)
      · obtain hends | ⟨run, world, ho, hparked⟩ := fileProceeded_cases c t false
          (c.formatter.startFile {} (lines.map some) false (m.signalled t.id).world)
          { m.signalled t.id with calls := entry :: (m.signalled t.id).calls }
        · rw [← heq] at hends
          exact .inl (hbegun.ends hends)
        · exact .inr ⟨run, world, _, _, FileRun.heeds_of_startFile ho, List.suffix_rfl,
            heq.trans hparked⟩

/-- A run begins by calling the formatter, unless it ends at once. -/
theorem beginRun_cases :
    (∃ m₁, Alike m m₁ ∧ m.beginRun c t = m₁.finishRun c t.id ∧
        (m.disposed = true ∨ (c.flags m.world).master = false ∨
          c.entry? t.request m.world = none)) ∨
      ∃ entry, c.entry? t.request m.world = some entry ∧
        (Ends c t.id { m with calls := entry :: m.calls } (m.beginRun c t) ∨
          m.disposed = false ∧
            Parks t.id { m.signalled t.id with calls := entry :: (m.signalled t.id).calls }
              (m.beginRun c t)) := by
  rw [beginRun.eq_def]
  by_cases hd : m.disposed = true
  · rw [if_pos hd]
    exact .inl ⟨m, .refl m, rfl, .inl hd⟩
  · rw [if_neg hd]
    obtain ⟨warnings, hread⟩ := readSwitches_eq c m
    have halike := alike_warnings warnings m
    simp only [hread]
    split
    next hmaster => exact .inl ⟨_, halike, rfl, .inr (.inl (by simpa using hmaster))⟩
    next =>
      split
      next hscope =>
        have hentry : c.entry? t.request m.world =
            (c.allLines?.bind fun f => f m.world).map fun lines => .file lines.length := by
          rw [Setup.entry?, if_pos hscope]
        obtain ⟨hlines, hend⟩ | ⟨lines, hlines, hgone⟩ :=
          beginFile_cases (c := c) (m := { m with warnings }) (t := t) <;>
            rw [show (c.allLines?.bind fun f => f m.world) = _ from hlines] at hentry
        · exact .inl ⟨_, halike, hend, .inr (.inr hentry)⟩
        · refine .inr ⟨_, hentry, ?_⟩
          obtain hends | ⟨run, world, calls, _, hheeds, hcalls, heq⟩ := hgone
          · exact .inl ((alike_called _ halike rfl).ends hends)
          · rw [signalled_warnings] at hcalls heq
            exact .inr ⟨by simpa using hd, run, world, calls, _, hheeds, hcalls, heq⟩
      next n htarget hscope =>
        refine .inr ⟨.line n, ?_, .inl ((alike_called _ halike rfl).ends (ends_call _ _))⟩
        rw [Setup.entry?, if_neg hscope, htarget]
      next htarget hscope =>
        refine .inr ⟨.current, ?_, .inl ((alike_called _ halike rfl).ends (ends_call _ _))⟩
        rw [Setup.entry?, if_neg hscope, htarget]

/-- Whatever a run does, it comes to its end or to a pause. -/
theorem goneOn_advanceRun : GoneOn c t.id m (m.advanceRun c t) := by
  rw [advanceRun]
  split
  · obtain ⟨m₁, halike, hend, -⟩ | ⟨entry, -, hends | ⟨-, hparks⟩⟩ :=
      beginRun_cases (c := c) (m := m) (t := t)
    · exact ⟨m₁, halike, .inl hend⟩
    · exact ((alike_calls entry m).ends hends).goneOn
    · exact ((alike_calls entry m).trans (alike_signalled t.id entry m)).goneOn hparks
  · obtain hends | ⟨run, world, -, hparked⟩ := fileProceeded_cases c t _ _ m
    · exact hends.goneOn
    · exact ⟨_, alike_world world m, .inr ⟨run, hparked⟩⟩

end Machine

end TaskLine
