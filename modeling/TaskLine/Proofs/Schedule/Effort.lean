import TaskLine.Proofs.Formatter.Extent
import TaskLine.Proofs.Schedule.Timers

/-!
# What is left to do

The loop is given a number of steps for what there is to do: so many for a run that has not begun,
one for each pause that is left to a run that has, and some for the queue, for a timer and for those
who wait (`Machine.effort`). All of it is counted for a number of lines that no host tells more
than, and that no run has more than (`Within`); that this number is kept is what a host that does
not grow is needed for (`Setup.Contained`).

A run that goes on ends, or is at a later pause (`Within.proceeds`); a timer that goes off makes
room for a run. So a job takes away more than it adds (`effort_perform_lt`), but for the job of a
timer that was cancelled, which does nothing.
-/

namespace TaskLine

variable {σ : Type} {c : Setup σ}

namespace Setup

/-- How many lines a host tells. -/
def lineCount (c : Setup σ) (s : σ) : Nat := ((c.allLines?.bind fun f => f s).getD []).length

/-- A host that tells no more lines for being written to, nor for being left. -/
structure Contained (c : Setup σ) : Prop where
  formatter : c.formatter.Confined c.lineCount
  unsubscribe : ∀ e s, c.lineCount (c.unsubscribe e s).2 ≤ c.lineCount s
  leave : ∀ s, c.lineCount (c.leave s) ≤ c.lineCount s

end Setup

namespace Machine

variable {m m₁ m' : Machine σ} {r : Request} {t : Run} {u : Timer} {id b : Nat} {live : Bool}

theorem total_cons {α : Type} (f : α → Nat) (a : α) (as : List α) :
    total f (a :: as) = f a + total f as := rfl

theorem total_append {α : Type} (f : α → Nat) (as bs : List α) :
    total f (as ++ bs) = total f as + total f bs := by
  induction as with
  | nil => exact (Nat.zero_add _).symm
  | cons a as ih => rw [List.cons_append, total_cons, ih, total_cons, Nat.add_assoc]

theorem total_map {α β : Type} (f : β → Nat) (g : α → β) (as : List α) :
    total f (as.map g) = total (fun a => f (g a)) as := List.foldr_map

theorem total_const {α : Type} (n : Nat) (as : List α) :
    total (fun _ => n) as = as.length * n := by
  induction as with
  | nil => exact (Nat.zero_mul n).symm
  | cons a as ih => rw [total_cons, ih, List.length_cons, Nat.succ_mul, Nat.add_comm]

/-! ## Effort -/

/-- A bound on the steps for what is queued. -/
def queueWork (b : Nat) (q : Option Request) : Nat := if q.isSome then 2 * b + 2 else 0

/-- A bound on the steps until nothing is left to do, for a number of lines. -/
def effort (b : Nat) (m : Machine σ) : Nat :=
  total jobWork m.ready + m.waiting.length + total (runWork b) m.runs + queueWork b m.queued
    + m.timers.length * (2 * b + 3)

theorem work_eq (c : Setup σ) (m : Machine σ) : m.work c = m.effort (m.lineBound c) := rfl

theorem queueWork_le (b : Nat) (q : Option Request) : queueWork b q ≤ 2 * b + 2 := by
  rw [queueWork]
  split
  · exact Nat.le_refl _
  · exact Nat.zero_le _

theorem total_runs_congr {ts us : List Run} (h : us.map Run.unmarked = ts.map Run.unmarked) :
    total (runWork b) us = total (runWork b) ts := by
  have hunmarked : ∀ vs : List Run,
      total (runWork b) vs = total (runWork b) (vs.map Run.unmarked) := by
    intro vs
    rw [total_map]
    rfl
  rw [hunmarked, h, ← hunmarked]

theorem Alike.effort_eq (h : Alike m m₁) : m₁.effort b = m.effort b := by
  obtain ⟨_, _, _, _, _, _, _, _, rfl, -, hruns⟩ := h
  rw [effort, total_runs_congr hruns]
  rfl

theorem effort_refresh (m : Machine σ) : m.refresh.effort b = m.effort b := by
  rw [refresh]
  split
  · split
    · rfl
    · have hwake : total jobWork (m.waiting.map Job.wake) = m.waiting.length := by
        rw [total_map]
        exact (total_const 1 m.waiting).trans (Nat.mul_one _)
      simp only [effort, total_append, hwake, List.length_nil]
      omega
  · rfl

theorem effort_disarm_le (m : Machine σ) : m.disarm.effort b ≤ m.effort b := by
  rw [disarm]
  split
  · exact Nat.le_refl _
  next id harmed =>
    have htimers := Nat.mul_le_mul_right (2 * b + 3)
      (List.length_filter_le (fun t => t.id != id) m.timers)
    simp only [effort]
    omega

theorem effort_enrol (m : Machine σ) : (m.enrol r).effort b = m.effort b + (2 * b + 2) := by
  have hrun : total (runWork b) [{ id := m.nextId, request := r }] = 2 * b + 2 := rfl
  have hjob : total jobWork [.run m.nextId] = 0 := rfl
  simp only [effort, enrol, total_append, hrun, hjob]
  omega

/-- A request that is dispatched is run or queued. -/
theorem effort_dispatch_le :
    (m.dispatch c live r).state.effort b ≤ m.effort b + (2 * b + 2) := by
  by_cases hd : m.disposed = true
  · rw [dispatch_of_disposed hd, effort_refresh]
    exact Nat.le_add_right _ _
  · have hd : m.disposed = false := Bool.eq_false_iff.mpr hd
    cases hrunning : m.running with
    | some current =>
        obtain ⟨m₁, halike, heq⟩ := dispatch_of_running c live r hd hrunning
        have hqueued : effort b { m₁ with queued := some r } ≤ m₁.effort b + (2 * b + 2) := by
          have hqueue := queueWork_le b (some r)
          simp only [effort]
          omega
        rw [heq, effort_refresh, ← halike.effort_eq]
        exact hqueued
    | none =>
        have hbegun : effort b { m with running := some r } = m.effort b := rfl
        cases hlive : live || c.ownLoop with
        | true =>
            rw [dispatch_of_idle hlive hd hrunning, effort_enrol, effort_refresh, hbegun]
        | false =>
            rw [dispatch_of_stranded hlive hd hrunning, effort_refresh, hbegun]
            exact Nat.le_add_right _ _

/-- A run that is over makes room for the queued request. -/
theorem effort_finishRun_le (honly : m.runs = [t]) :
    (m.finishRun c t.id).effort b + runWork b t ≤ m.effort b := by
  have hended : (m.cease t.id).effort b + runWork b t + queueWork b m.queued = m.effort b := by
    have hone : total (runWork b) [t] = runWork b t := rfl
    have hnone : total (runWork b) ([] : List Run) = 0 := rfl
    have hfilter : [t].filter (fun u => u.id != t.id) = [] := by simp
    have hqueue : queueWork b none = 0 := rfl
    simp only [effort, cease, honly, hone, hfilter, hnone, hqueue]
    omega
  rw [finishRun_eq]
  split
  · rw [effort_refresh]
    omega
  next r hr =>
    have hqueue : queueWork b m.queued = 2 * b + 2 := by rw [hr]; rfl
    split
    · rw [effort_refresh]
      omega
    · have hfollows : ((m.cease t.id).dispatch c true r).state.effort b ≤
          (m.cease t.id).effort b + (2 * b + 2) := effort_dispatch_le
      rw [effort_refresh]
      omega

theorem effort_park (run : FileRun) (honly : m.runs = [t]) :
    (m.park t.id run).effort b + runWork b t = m.effort b + (run.pauses + 1) := by
  have hone : total (runWork b) [t] = runWork b t := rfl
  have hparked : total (runWork b) [{ t with paused := some run }] = run.pauses + 1 := rfl
  have hjob : total jobWork [.run t.id] = 0 := rfl
  have hruns : [t].map (fun u => if u.id = t.id then { u with paused := some run } else u) =
      [{ t with paused := some run }] := by simp
  simp only [effort, park, honly, hone, hruns, hparked, total_append, hjob]
  omega

theorem effort_dispose_le (m : Machine σ) : (m.dispose c).effort b ≤ m.effort b := by
  obtain ⟨m₁, halike, heq⟩ := dispose_cases c m
  have hdisarm := effort_disarm_le (b := b) { m with disposed := true }
  have hsame : effort b { m with disposed := true } = m.effort b := rfl
  have hdropped : effort b { m₁ with queued := none } ≤ m₁.effort b := by
    have hnone : queueWork b none = 0 := rfl
    simp only [effort, hnone]
    omega
  rw [heq, effort_refresh]
  exact Nat.le_trans hdropped (halike.effort_eq ▸ hdisarm)

theorem effort_tell_le (w : Waiter) : (m.tell c w).effort b ≤ m.effort b := by
  cases w with
  | observer n => exact Nat.le_refl _
  | leaver => exact effort_dispose_le m

/-! ## Runs that fit -/

/-- Where the runs over files are paused. -/
def halts (m : Machine σ) : List FileRun := m.runs.filterMap (·.paused)

/-- The host tells no more lines than some number, and no run has more. What is left of a run
writes no more lines than the run has. -/
structure Within (c : Setup σ) (b : Nat) (m : Machine σ) : Prop where
  world : c.lineCount m.world ≤ b
  halts : ∀ run ∈ m.halts, run.Fits ∧ run.progress.total ≤ b

theorem halts_congr {ts us : List Run} (h : us.map Run.unmarked = ts.map Run.unmarked) :
    us.filterMap (·.paused) = ts.filterMap (·.paused) := by
  have hunmarked : ∀ vs : List Run,
      vs.filterMap (·.paused) = (vs.map Run.unmarked).filterMap (·.paused) := by
    intro vs
    rw [List.filterMap_map]
    rfl
  rw [hunmarked, h, ← hunmarked]

theorem Steady.halts_eq (h : Steady m m₁) : m₁.halts = m.halts := halts_congr h.runs

theorem halts_dispatch : (m.dispatch c live r).state.halts = m.halts := by
  by_cases hd : m.disposed = true
  · rw [dispatch_of_disposed hd]
    exact (steady_refresh m).halts_eq
  · have hd : m.disposed = false := Bool.eq_false_iff.mpr hd
    cases hrunning : m.running with
    | some current =>
        obtain ⟨m₁, halike, heq⟩ := dispatch_of_running c live r hd hrunning
        have hqueued : halts { m₁ with queued := some r } = m₁.halts := rfl
        rw [heq, (steady_refresh _).halts_eq, hqueued, halike.steady.halts_eq]
    | none =>
        have hbegun : halts (refresh { m with running := some r }) = m.halts :=
          (steady_refresh _).halts_eq
        cases hlive : live || c.ownLoop with
        | true =>
            rw [dispatch_of_idle hlive hd hrunning, ← hbegun]
            simp [halts, enrol]
        | false => rw [dispatch_of_stranded hlive hd hrunning, hbegun]

theorem halts_finishRun : (m.finishRun c id).halts.Sublist m.halts := by
  have hended : (m.cease id).halts.Sublist m.halts := List.filter_sublist.filterMap _
  rw [finishRun_eq]
  split
  · rwa [(steady_refresh _).halts_eq]
  · split
    · rwa [(steady_refresh _).halts_eq]
    · rwa [(steady_refresh _).halts_eq, halts_dispatch]

theorem halts_dispose : (m.dispose c).halts = m.halts := by
  obtain ⟨m₁, halike, heq⟩ := dispose_cases c m
  have hdropped : halts { m₁ with queued := none } = m₁.halts := rfl
  rw [heq, (steady_refresh _).halts_eq, hdropped, halike.steady.halts_eq,
    (steady_disarm _).halts_eq]
  rfl

theorem lineCount_dispose (hc : c.Contained) :
    c.lineCount (m.dispose c).world ≤ c.lineCount m.world :=
  world_dispose (P := fun s => c.lineCount s ≤ c.lineCount m.world)
    (fun e s hs => Nat.le_trans (hc.unsubscribe e s) hs) (Nat.le_refl _)

theorem Within.tell (hc : c.Contained) (h : m.Within c b) (w : Waiter) :
    (m.tell c w).Within c b := by
  cases w with
  | observer n => exact ⟨h.world, h.halts⟩
  | leaver =>
      refine ⟨?_, fun run hrun => h.halts run (halts_dispose (c := c) ▸ hrun)⟩
      exact Nat.le_trans (hc.leave _) (Nat.le_trans (lineCount_dispose hc) h.world)

/-! ## Runs that go on -/

/-- A run has gone on, and then came to its end or to a pause that is closer to it. -/
def Proceeds (c : Setup σ) (b : Nat) (t : Run) (m m' : Machine σ) : Prop :=
  ∃ m₁, Alike m m₁ ∧ c.lineCount m₁.world ≤ b ∧ (m' = m₁.finishRun c t.id ∨
    ∃ run, m' = m₁.park t.id run ∧ run.Fits ∧ run.progress.total ≤ b ∧ run.pauses + 1 < runWork b t)

theorem Alike.proceeds (h : Alike m m₁) (hproceeds : Proceeds c b t m₁ m') :
    Proceeds c b t m m' := by
  obtain ⟨m₂, halike, hrest⟩ := hproceeds
  exact ⟨m₂, h.trans halike, hrest⟩

theorem proceeds_finishRun (hworld : c.lineCount m.world ≤ b) :
    Proceeds c b t m (m.finishRun c t.id) := ⟨m, .refl m, hworld, .inl rfl⟩

theorem proceeds_failRun (message : Text) (hworld : c.lineCount m.world ≤ b) :
    Proceeds c b t m (m.failRun c t message) :=
  (alike_warn _ m).proceeds (proceeds_finishRun hworld)

theorem proceeds_call (entry : Call) {work : Machine σ → Machine σ}
    (hworld : c.lineCount m.world ≤ b)
    (hwork : Proceeds c b t { m with calls := entry :: m.calls }
      (work { m with calls := entry :: m.calls })) : Proceeds c b t m (m.call c t entry work) := by
  refine (alike_calls entry m).proceeds ?_
  rw [call.eq_def]
  dsimp only
  split
  · exact proceeds_failRun _ hworld
  · exact hwork

theorem proceeds_fileProceeded (stopped : Bool) {o : FileRun.Outcome σ}
    (hstate : c.lineCount o.state ≤ b) (hpaused : ∀ run s, o = .paused run s →
      run.Fits ∧ run.progress.total ≤ b ∧ run.pauses + 1 < runWork b t) :
    Proceeds c b t m (m.fileProceeded c t stopped o) := by
  cases o with
  | paused run world =>
      exact ⟨_, alike_world world m, hstate, .inr ⟨run, rfl, hpaused run world rfl⟩⟩
  | ended changed world =>
      exact ((alike_world world m).trans (alike_calls (.fileEnd changed stopped) _)).proceeds
        (proceeds_finishRun hstate)
  | failed e world => exact (alike_world world m).proceeds (proceeds_failRun _ hstate)

theorem proceeds_lineFormatted {x : Attempt RunFault σ Bool} (hstate : c.lineCount x.state ≤ b) :
    Proceeds c b t m (m.lineFormatted c t x) := by
  obtain ⟨_ | _, world⟩ := x
  · exact (alike_world world m).proceeds (proceeds_failRun _ hstate)
  · exact (alike_world world m).proceeds (proceeds_finishRun hstate)

theorem proceeds_beginFile (hc : c.Contained) (hworld : c.lineCount m.world ≤ b)
    (hpaused : t.paused = none) : Proceeds c b t m (m.beginFile c t) := by
  rw [beginFile.eq_def]
  split
  · exact proceeds_finishRun hworld
  next lines hlines =>
    have hcount : lines.length ≤ b := by
      have htold : (c.allLines?.bind fun f => f m.world) = some lines := hlines
      rwa [Setup.lineCount, htold] at hworld
    have hsignalled : Alike m (m.signalled t.id) :=
      (alike_stopRun m).trans ⟨_, _, some t.id, _, _, _, _, _, rfl, List.suffix_rfl, rfl⟩
    have hsame : (m.signalled t.id).world = m.world := (quiet_stopRun m).world
    refine hsignalled.proceeds (proceeds_call _ (hsame ▸ hworld) ?_)
    refine proceeds_fileProceeded _ (FileRun.size_startFile hc.formatter (hsame ▸ hworld) hcount) ?_
    intro run s ho
    obtain ⟨hfits, htotal, hpauses⟩ := FileRun.fits_of_startFile ho
    refine ⟨hfits, htotal ▸ hcount, ?_⟩
    rw [runWork, hpaused]
    dsimp only
    omega

theorem proceeds_beginRun (hc : c.Contained) (hworld : c.lineCount m.world ≤ b)
    (hpaused : t.paused = none) : Proceeds c b t m (m.beginRun c t) := by
  obtain ⟨warnings, hread⟩ := readSwitches_eq c m
  rw [beginRun.eq_def]
  split
  · exact proceeds_finishRun hworld
  · simp only [hread]
    refine (alike_warnings warnings m).proceeds ?_
    split
    · exact proceeds_finishRun hworld
    · split
      · exact proceeds_beginFile hc hworld hpaused
      · refine proceeds_call _ hworld (proceeds_lineFormatted ?_)
        exact Nat.le_trans (hc.formatter.size_formatLineAt ..) hworld
      · refine proceeds_call _ hworld (proceeds_lineFormatted ?_)
        exact Nat.le_trans (hc.formatter.size_formatCurrent ..) hworld

theorem Within.proceeds (hc : c.Contained) (h : m.Within c b) (ht : t ∈ m.runs) :
    Proceeds c b t m (m.advanceRun c t) := by
  rw [Machine.advanceRun]
  cases hpaused : t.paused with
  | none => exact proceeds_beginRun hc h.world hpaused
  | some run =>
      obtain ⟨hfits, htotal⟩ := h.halts run (List.mem_filterMap.mpr ⟨t, ht, hpaused⟩)
      refine proceeds_fileProceeded _ (hfits.size_resume hc.formatter h.world htotal) ?_
      intro run' s ho
      obtain ⟨hfits', hsame, hpauses⟩ := hfits.of_resume ho
      refine ⟨hfits', hsame ▸ htotal, ?_⟩
      rw [runWork, hpaused]
      dsimp only
      omega

theorem Proceeds.within (h : Proceeds c b t m m') (hm : m.Within c b) : m'.Within c b := by
  obtain ⟨m₁, halike, hworld, rfl | ⟨run, rfl, hfits, htotal, -⟩⟩ := h
  · refine ⟨?_, fun run hrun => ?_⟩
    · rwa [quiet_finishRun.world]
    · exact hm.halts run (halike.steady.halts_eq ▸ halts_finishRun.subset hrun)
  · refine ⟨hworld, fun run' hrun => ?_⟩
    obtain ⟨u, hu, hpaused⟩ := List.mem_filterMap.mp hrun
    obtain ⟨v, hv, rfl⟩ := List.mem_map.mp hu
    split at hpaused
    · obtain rfl := Option.some.inj hpaused
      exact ⟨hfits, htotal⟩
    · exact hm.halts run' (halike.steady.halts_eq ▸ List.mem_filterMap.mpr ⟨v, hv, hpaused⟩)

theorem Proceeds.effort_lt (h : Proceeds c b t m m') (honly : m.runs = [t]) :
    m'.effort b < m.effort b := by
  obtain ⟨m₁, halike, -, hm'⟩ := h
  have hruns := halike.steady.runs
  rw [honly, List.map_singleton, List.map_eq_singleton_iff] at hruns
  obtain ⟨u, hu, hunmarked⟩ := hruns
  have hid : u.unmarked.id = t.unmarked.id := congrArg Run.id hunmarked
  have hwork : runWork b u.unmarked = runWork b t.unmarked := congrArg (runWork b) hunmarked
  rw [Run.unmarked_id, Run.unmarked_id] at hid
  have hsame : ∀ v : Run, runWork b v.unmarked = runWork b v := fun _ => rfl
  rw [hsame, hsame] at hwork
  have hpos : 0 < runWork b t := by
    rw [runWork]
    split <;> omega
  rw [← halike.effort_eq (b := b)]
  obtain rfl | ⟨run, rfl, -, -, hcloser⟩ := hm'
  · have hended := effort_finishRun_le (c := c) (b := b) hu
    rw [hid] at hended
    omega
  · have hparked := effort_park (b := b) run hu
    rw [hid] at hparked
    omega

/-! ## Jobs -/

theorem Within.perform (hc : c.Contained) (h : m.Within c b) (j : Job) :
    (m.perform c j).Within c b := by
  cases j with
  | run id =>
      rw [Machine.perform]
      split
      next t hfind => exact (h.proceeds hc (List.mem_of_find?_eq_some hfind)).within h
      next => exact h
  | expire id =>
      rw [Machine.perform]
      split
      · refine ⟨?_, ?_⟩
        · rw [quiet_dispatch.world]
          exact h.world
        · rw [halts_dispatch]
          exact h.halts
      · exact h
  | ask w =>
      rw [Machine.perform]
      split
      · exact h.tell hc w
      · exact ⟨h.world, h.halts⟩
  | wake w => exact h.tell hc w

/-- Whether a job finds what it goes on with. -/
def Finds (m : Machine σ) : Job → Prop
  | .run id => ∃ t ∈ m.runs, t.id = id
  | .expire id => ∃ t ∈ m.timers, t.id = id
  | .ask _ | .wake _ => True

theorem effort_expire (honly : m.timers = [u]) :
    effort b { m with armed := none, timers := [] } + (2 * b + 3) = m.effort b := by
  simp only [effort, honly, List.length_nil, List.length_singleton]
  omega

/-- A job that finds what it goes on with takes away more than it adds. -/
theorem effort_perform_lt (hc : c.Contained) (hl : m.Leashed) (hn : m.Narrow) (h : m.Within c b)
    {j : Job} (hj : m.Finds j) : (m.perform c j).effort b < m.effort b + jobWork j := by
  cases j with
  | run id =>
      obtain ⟨t, ht, rfl⟩ := hj
      have honly : m.runs = [t] := (hl.only t ht).1
      have hfind : m.runs.find? (fun u => u.id = t.id) = some t := by simp [honly]
      rw [perform, hfind]
      exact (h.proceeds hc ht).effort_lt honly
  | expire id =>
      obtain ⟨u, hu, rfl⟩ := hj
      have honly : m.timers = [u] := hn.timers_eq hu
      have hfind : m.timers.find? (fun v => v.id = u.id) = some u := by simp [honly]
      have hfired := effort_expire (b := b) honly
      rw [perform, hfind]
      dsimp only
      rw [hn.expire hu]
      refine Nat.lt_of_le_of_lt effort_dispatch_le ?_
      omega
  | ask w =>
      have hwork : jobWork (.ask w) = 2 := rfl
      rw [perform, hwork]
      split
      · have htold := effort_tell_le (m := m) (c := c) (b := b) w
        omega
      · simp only [effort, List.length_append, List.length_singleton]
        omega
  | wake w =>
      have hwork : jobWork (.wake w) = 1 := rfl
      have htold := effort_tell_le (m := m) (c := c) (b := b) w
      rw [perform, hwork]
      omega

/-- A job that does not find what it goes on with does nothing. -/
theorem perform_of_not_finds {j : Job} (hj : ¬ m.Finds j) : m.perform c j = m := by
  cases j with
  | run id =>
      have hfind : m.runs.find? (fun t => t.id = id) = none := by
        simpa [Finds] using hj
      rw [perform, hfind]
  | expire id =>
      have hfind : m.timers.find? (fun t => t.id = id) = none := by
        simpa [Finds] using hj
      rw [perform, hfind]
  | ask w => exact absurd trivial hj
  | wake w => exact absurd trivial hj

theorem le_foldl_max {α : Type} (f : α → Nat) (as : List α) (n : Nat) :
    n ≤ as.foldl (fun n a => max n (f a)) n ∧
      ∀ a ∈ as, f a ≤ as.foldl (fun n a => max n (f a)) n := by
  induction as generalizing n with
  | nil => exact ⟨Nat.le_refl n, nofun⟩
  | cons a as ih =>
      obtain ⟨hfirst, hrest⟩ := ih (max n (f a))
      rw [List.foldl_cons]
      exact ⟨Nat.le_trans (Nat.le_max_left ..) hfirst,
        List.forall_mem_cons.mpr ⟨Nat.le_trans (Nat.le_max_right ..) hfirst, hrest⟩⟩

/-- The number of lines that the loop reckons with suffices. -/
theorem within_lineBound (h : ∀ run ∈ m.halts, run.Fits) : m.Within c (m.lineBound c) := by
  obtain ⟨hworld, hruns⟩ := le_foldl_max
    (fun t : Run => (t.paused.map (·.progress.total)).getD 0) m.runs (c.lineCount m.world)
  refine ⟨hworld, fun run hrun => ⟨h run hrun, ?_⟩⟩
  obtain ⟨t, ht, hpaused⟩ := List.mem_filterMap.mp hrun
  have htotal := hruns t ht
  rwa [hpaused] at htotal

end Machine

namespace Moment

open Machine (Within)

variable {k : Moment σ} {a : Act σ} {acts : List (Act σ)}

/-- Only jobs go on with runs. -/
theorem halts_after (ha : a.Available c) (hjob : a ≠ .job) :
    (k.after c a).machine.halts = k.machine.halts := by
  cases a with
  | trigger live asked => exact (Machine.steady_trigger ha).halts_eq
  | triggerNow live asked =>
      have htriggered := Machine.triggeredNow c live asked k.machine
      rw [after]
      generalize k.machine.triggerNow c live asked = x at htriggered ⊢
      cases htriggered with
      | disposed | misread => rfl
      | refused r m₁ hd hm => exact hm.alike.steady.halts_eq
      | dispatched r m₁ hd hm =>
          exact Machine.halts_dispatch.trans
            (hm.alike.steady.trans (Machine.steady_disarm m₁)).halts_eq
  | attach live =>
      obtain halike | ⟨m₁, asked, halike, hattached⟩ := Machine.attach_alike c live k.machine
      · exact halike.steady.halts_eq
      · exact ((halike.steady.trans (Machine.steady_trigger ha)).trans hattached.steady).halts_eq
  | notice live n =>
      exact ((Machine.steady_trigger ha).trans Machine.notice_alike.steady).halts_eq
  | dispose => exact Machine.halts_dispose
  | gather =>
      rw [after]
      split <;> rfl
  | job => exact absurd rfl hjob
  | _ => rfl

theorem fits_after (hc : c.Contained) (ha : a.Available c) (h : ∀ run ∈ k.machine.halts, run.Fits) :
    ∀ run ∈ (k.after c a).machine.halts, run.Fits := by
  by_cases hjob : a = .job
  · subst hjob
    rw [after]
    split
    · exact h
    next j rest hrest =>
      exact fun run hrun => (((Machine.within_lineBound h).perform hc j).halts run hrun).1
  · rwa [halts_after ha hjob]

/-- At every moment what is left of a run writes no more lines than the run has. -/
theorem fits_run (hc : c.Contained) {s : σ} (hacts : ∀ a ∈ acts, a.Available c) :
    ∀ run ∈ ((start s).run c acts).machine.halts, run.Fits :=
  run_induction (P := fun k => ∀ run ∈ k.machine.halts, run.Fits)
    (fun _ a ha h => fits_after hc (hacts a ha) h) nofun

end Moment

/-! ## Documents -/

namespace Desk

theorem lineCount_setup (l : Layout) (d : Desk) : (setup l).lineCount d =
    if !l.detached && !l.limits.lacks.contains .allLines && !l.untold then d.document.lines.length
    else 0 := by
  by_cases hoffers : (!l.detached && !l.limits.lacks.contains .allLines) = true
  · have hlines : (setup l).allLines? =
        some fun d => if l.untold then none else some d.document.lines := if_pos hoffers
    rw [Setup.lineCount, hlines, hoffers]
    cases l.untold <;> rfl
  · have hnone : (setup l).allLines? = none := if_neg hoffers
    rw [Setup.lineCount, hnone, Bool.eq_false_iff.mpr hoffers]
    rfl

/-- Writing to a document never makes it longer than it was, or than what is written. -/
theorem contained_setup (l : Layout) : (setup l).Contained where
  formatter := by
    have hconfined := confined_formatter l.limits l.pace
    rw [funext (lineCount_setup l)]
    split
    · exact hconfined
    · exact ⟨hconfined.discreet.map fun _ => 0, fun _ _ _ _ _ => Nat.le_refl 0,
        fun _ _ _ _ _ _ => Nat.le_refl 0, fun _ _ _ _ => Nat.zero_le _⟩
  unsubscribe e d := by
    have hlines : ((setup l).unsubscribe e d).2.document.lines = d.document.lines := by
      simp only [setup, unsubscribe]
      split <;> rfl
    rw [lineCount_setup, lineCount_setup, hlines]
  leave d := Nat.le_refl _

end Desk

end TaskLine
