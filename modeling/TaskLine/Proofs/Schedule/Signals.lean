import TaskLine.Proofs.Schedule.Moments

/-!
# The signal by which a run is told to stop

A run for the file can be told to stop from its first pause on: the scheduler holds the signal of
the run that has begun and was not told yet, and of no other (`Leashed`). A run that has not begun
has no signal, so nothing can be told to it.

Seen from the run that is not over and from the signal, an act does one of four things: nothing, it
tells the run to stop, it goes on with the run up to a pause, or it leaves no run but one that has
not begun. This is said once (`Leashed.shift`), for every act, whether there is a loop to schedule
on or not; that the scheduler holds the right signal at every moment (`leashed_run`) and that a run
which was told to stop stays told (`Told.run`) are derived from it.
-/

namespace TaskLine

variable {σ : Type} {c : Setup σ}

/-- Whether a run has begun and was not told to stop. -/
def Run.stoppable (t : Run) : Bool := t.paused.isSome && !t.stopped

namespace Machine

variable {m m' m₁ m₂ : Machine σ} {t : Run} {id : Nat} {r : Request}

/-! ## What leaves the run and the signal alone -/

/-- Two machines with the same runs, the same request that is being run and the same signal. -/
structure Calm (m m' : Machine σ) : Prop where
  runs : m'.runs = m.runs
  running : m'.running = m.running
  signal : m'.signal = m.signal
  disposed : m'.disposed = m.disposed
  nextId : m.nextId ≤ m'.nextId

theorem Calm.refl (m : Machine σ) : Calm m m := ⟨rfl, rfl, rfl, rfl, Nat.le_refl _⟩

theorem Calm.trans (h₁ : Calm m m₁) (h₂ : Calm m₁ m₂) : Calm m m₂ :=
  ⟨h₂.runs.trans h₁.runs, h₂.running.trans h₁.running, h₂.signal.trans h₁.signal,
    h₂.disposed.trans h₁.disposed, Nat.le_trans h₁.nextId h₂.nextId⟩

/-- Neither the world nor the time, the timers, the queue and the records matter. -/
theorem calm_frame {world : σ} {now : Nat} {ready : List Job} {timers : List Timer}
    {attached : Bool} {armed : Option Nat} {queued : Option Request} {idle : Bool}
    {held : List HostEvent} {waiting : List Waiter} {told : List Nat} {calls : List Call}
    {warnings : List Warning} :
    Calm m { m with
      world, now, ready, timers, attached, armed, queued, idle, held, waiting, told, calls,
      warnings } :=
  ⟨rfl, rfl, rfl, rfl, Nat.le_refl _⟩

theorem Warned.calm (h : Warned m m₁) : Calm m m₁ := by
  obtain ⟨warnings, rfl⟩ := h
  exact calm_frame

theorem calm_warn (w : Warning) (m : Machine σ) : Calm m (m.warn w) := calm_frame

theorem calm_refresh (m : Machine σ) : Calm m m.refresh := by
  obtain ⟨_, _, h⟩ := exists_refresh m
  rw [h]
  exact calm_frame

theorem calm_disarm (m : Machine σ) : Calm m m.disarm := by
  rw [disarm]
  split <;> exact calm_frame

theorem calm_foldl {α : Type} {f : Machine σ → α → Machine σ} (hf : ∀ m a, Calm m (f m a))
    (as : List α) (m : Machine σ) : Calm m (as.foldl f m) := by
  induction as generalizing m with
  | nil => exact .refl m
  | cons a as ih => exact (hf m a).trans (ih (f m a))

theorem calm_trigger (c : Setup σ) (live : Bool) (asked : Except RequestFault Request)
    (m : Machine σ) : Calm m (m.trigger c live asked).state := by
  have htriggered := triggered c live asked m
  generalize m.trigger c live asked = x at htriggered ⊢
  cases htriggered with
  | disposed | misread => exact .refl m
  | refused r m₁ hd hm => exact ((calm_disarm m).trans hm.calm).trans (calm_refresh m₁)
  | armed r m₁ hd hm =>
      have harm : Calm m₁ (m₁.arm c r) := ⟨rfl, rfl, rfl, rfl, Nat.le_succ _⟩
      exact (((calm_disarm m).trans hm.calm).trans harm).trans (calm_refresh _)
  | stranded r m₁ hd hm => exact (calm_disarm m).trans hm.calm

theorem calm_notice (c : Setup σ) (live : Bool) (n : Notice) (m : Machine σ) :
    Calm m (m.notice c live n) := by
  have h := calm_trigger c live (.ok (requestOf n)) m
  rw [notice]
  split <;> rename_i heq <;> rw [heq] at h
  · exact h
  · exact h.trans (calm_warn _ _)

theorem calm_subscribe (event : HostEvent) (hook : σ → Subscription × σ) (m : Machine σ) :
    Calm m (m.subscribe event hook) := by
  rw [subscribe.eq_def]
  dsimp only
  split <;> exact calm_frame

theorem calm_attach (c : Setup σ) (live : Bool) (m : Machine σ) : Calm m (m.attach c live) := by
  rw [attach]
  split
  · exact .refl m
  · dsimp only
    generalize events.filterMap (fun e => (c.subscribe? e).map fun hook => (e, hook)) = offered
    have hattached : Calm m { m with attached := true } := calm_frame
    have hsubscribed := hattached.trans
      (calm_foldl (fun m o => calm_subscribe o.1 o.2 m) offered _)
    split
    · have h := hsubscribed.trans
        (calm_trigger c live (.ok { reason := .manual, scope := .line }) _)
      split <;> rename_i heq <;> rw [heq] at h
      · exact h
      · exact h.trans (calm_warn _ _)
    · exact hsubscribed

/-! ## The run and its signal -/

/-- The scheduler can tell its run to stop as soon as the run has begun. -/
structure Leashed (m : Machine σ) : Prop where
  /-- There is no run but the one for the request that is being run. -/
  only : ∀ t ∈ m.runs, m.runs = [t] ∧ m.running = some t.request ∧ t.id < m.nextId
  /-- The signal that is held is the one of the run that has begun and was not told to stop. -/
  signal : (m.runs.filter Run.stoppable).map (·.id) = m.signal.toList
  heeds : ∀ t ∈ m.runs, ∀ run, t.paused = some run → run.Heeds
  begun : ∀ t ∈ m.runs, t.stopped = true → t.paused.isSome
  disposed : m.disposed = true → m.signal = none

/-- What an act does to the run that is not over and to the signal that is held. -/
inductive Shift (m m' : Machine σ) : Prop where
  | stay (runs : m'.runs = m.runs) (running : m.runs = [] ∨ m'.running = m.running)
      (signal : m'.signal = m.signal) (nextId : m.nextId ≤ m'.nextId)
      (disposed : m'.disposed = true → m'.signal = none)
  /-- The run is told to stop. -/
  | tell (t : Run) (only : m.runs = [t]) (held : m.signal = some t.id)
      (runs : m'.runs = [{ t with stopped := true }]) (running : m'.running = m.running)
      (signal : m'.signal = none) (nextId : m.nextId ≤ m'.nextId)
  /-- The run goes on up to a pause, at which it can be told to stop. -/
  | park (t : Run) (run : FileRun) (only : m.runs = [t]) (going : t.stopped = false)
      (heeds : run.Heeds) (runs : m'.runs = [{ t with paused := some run }])
      (running : m'.running = m.running) (signal : m'.signal = some t.id)
      (nextId : m.nextId ≤ m'.nextId) (disposed : m'.disposed = false)
  /-- No run is left but one that has not begun. -/
  | renew (runs : m'.runs = [] ∨ ∃ n r, m.nextId ≤ n ∧ n < m'.nextId ∧ m'.running = some r ∧
        m'.runs = [{ id := n, request := r }])
      (signal : m'.signal = none) (nextId : m.nextId ≤ m'.nextId)

theorem Calm.shift (h : Calm m m') (hm : m.Leashed) : Shift m m' :=
  .stay h.runs (.inr h.running) h.signal h.nextId fun hd =>
    h.signal.trans (hm.disposed (h.disposed ▸ hd))

theorem Shift.trans (h : Shift m m₁) (hcalm : Calm m₁ m') : Shift m m' := by
  have hnext := hcalm.nextId
  cases h with
  | stay runs running signal nextId disposed =>
      exact .stay (hcalm.runs.trans runs) (running.imp_right hcalm.running.trans)
        (hcalm.signal.trans signal) (Nat.le_trans nextId hnext) fun hd =>
          hcalm.signal.trans (disposed (hcalm.disposed ▸ hd))
  | tell t only held runs running signal nextId =>
      exact .tell t only held (hcalm.runs.trans runs) (hcalm.running.trans running)
        (hcalm.signal.trans signal) (Nat.le_trans nextId hnext)
  | park t run only going heeds runs running signal nextId disposed =>
      exact .park t run only going heeds (hcalm.runs.trans runs) (hcalm.running.trans running)
        (hcalm.signal.trans signal) (Nat.le_trans nextId hnext) (hcalm.disposed.trans disposed)
  | renew runs signal nextId =>
      refine .renew (runs.imp hcalm.runs.trans ?_) (hcalm.signal.trans signal)
        (Nat.le_trans nextId hnext)
      rintro ⟨n, r, hle, hlt, hrunning, hruns⟩
      exact ⟨n, r, hle, Nat.lt_of_lt_of_le hlt hnext, hcalm.running.trans hrunning,
        hcalm.runs.trans hruns⟩

theorem Calm.trans_shift (hcalm : Calm m m₁) (h : Shift m₁ m') : Shift m m' := by
  have hnext := hcalm.nextId
  cases h with
  | stay runs running signal nextId disposed =>
      exact .stay (runs.trans hcalm.runs) (hcalm.runs ▸ hcalm.running ▸ running)
        (signal.trans hcalm.signal) (Nat.le_trans hnext nextId) disposed
  | tell t only held runs running signal nextId =>
      exact .tell t (hcalm.runs ▸ only) (hcalm.signal ▸ held) runs (running.trans hcalm.running)
        signal (Nat.le_trans hnext nextId)
  | park t run only going heeds runs running signal nextId disposed =>
      exact .park t run (hcalm.runs ▸ only) going heeds runs (running.trans hcalm.running) signal
        (Nat.le_trans hnext nextId) disposed
  | renew runs signal nextId =>
      refine .renew (runs.imp_right ?_) signal (Nat.le_trans hnext nextId)
      rintro ⟨n, r, hle, hlt, hrunning, hruns⟩
      exact ⟨n, r, Nat.le_trans hnext hle, hlt, hrunning, hruns⟩

/-- Whatever an act does to them, the signal that is held remains the right one. -/
theorem Leashed.after_shift (h : m.Leashed) (hshift : Shift m m') : m'.Leashed := by
  cases hshift with
  | stay runs running signal nextId disposed =>
      refine ⟨?_, ?_, ?_, ?_, disposed⟩
      · intro t ht
        rw [runs] at ht ⊢
        obtain ⟨honly, hrunning, hid⟩ := h.only t ht
        refine ⟨honly, ?_, Nat.lt_of_lt_of_le hid nextId⟩
        obtain hnone | hsame := running
        · rw [hnone] at ht
          cases ht
        · exact hsame.trans hrunning
      · rw [runs, signal]
        exact h.signal
      · rw [runs]
        exact h.heeds
      · rw [runs]
        exact h.begun
  | tell t only held runs running signal nextId =>
      have ht : t ∈ m.runs := by simp [only]
      have hstoppable : t.stoppable = true := by
        have hsignal := h.signal
        rw [only, held] at hsignal
        cases hcase : t.stoppable with
        | true => rfl
        | false => simp [hcase] at hsignal
      obtain ⟨-, hrunning, hid⟩ := h.only t ht
      simp only [Run.stoppable, Bool.and_eq_true] at hstoppable
      refine ⟨?_, ?_, ?_, ?_, fun _ => signal⟩ <;> rw [runs]
      · simp [running, hrunning, Nat.lt_of_lt_of_le hid nextId]
      · simp [signal, Run.stoppable]
      · simpa using h.heeds t ht
      · simpa using hstoppable.1
  | park t run only going heeds runs running signal nextId disposed =>
      have ht : t ∈ m.runs := by simp [only]
      obtain ⟨-, hrunning, hid⟩ := h.only t ht
      refine ⟨?_, ?_, ?_, ?_, fun hd => ?_⟩
      · simp [runs, running, hrunning, Nat.lt_of_lt_of_le hid nextId]
      · simp [runs, signal, Run.stoppable, going]
      · simpa [runs] using heeds
      · simp [runs]
      · rw [disposed] at hd
        cases hd
  | renew runs signal nextId =>
      obtain hnone | ⟨n, r, -, hlt, hrunning, hone⟩ := runs
      · refine ⟨?_, ?_, ?_, ?_, fun _ => signal⟩ <;> simp [hnone, signal]
      · refine ⟨?_, ?_, ?_, ?_, fun _ => signal⟩ <;> rw [hone]
        · simp [hrunning, hlt]
        · simp [signal, Run.stoppable]
        · simp
        · simp

/-! ## What the operations do -/

theorem Leashed.calm (h : m.Leashed) (hcalm : Calm m m₁) : m₁.Leashed :=
  h.after_shift (hcalm.shift h)

theorem Leashed.runs_eq_nil (h : m.Leashed) (hrunning : m.running = none) : m.runs = [] := by
  refine List.eq_nil_iff_forall_not_mem.mpr fun t ht => ?_
  have hsome := (h.only t ht).2.1
  rw [hrunning] at hsome
  cases hsome

theorem Leashed.signal_eq_none (h : m.Leashed) (hruns : ∀ t ∈ m.runs, t.stoppable = false) :
    m.signal = none := by
  have hsignal := h.signal
  rw [List.filter_eq_nil_iff.mpr (by simpa using hruns)] at hsignal
  exact Option.toList_eq_nil_iff.mp hsignal.symm

/-- The run whose signal is held is the only one. -/
theorem Leashed.held (h : m.Leashed) (hheld : m.signal = some id) :
    ∃ t, m.runs = [t] ∧ t.id = id ∧ t.stoppable = true := by
  have hsignal := h.signal
  rw [hheld, Option.toList_some, List.map_eq_singleton_iff] at hsignal
  obtain ⟨t, hfilter, hid⟩ := hsignal
  obtain ⟨ht, hstoppable⟩ := List.mem_filter.mp (hfilter ▸ List.mem_singleton_self t)
  exact ⟨t, (h.only t ht).1, hid, hstoppable⟩

theorem shift_stopRun (h : m.Leashed) : Shift m m.stopRun := by
  cases hsignal : m.signal with
  | none =>
      rw [stopRun, hsignal]
      exact (Calm.refl m).shift h
  | some id =>
      obtain ⟨t, honly, rfl, -⟩ := h.held hsignal
      refine .tell t honly hsignal ?_ ?_ ?_ ?_ <;> simp [stopRun, hsignal, honly]

theorem shift_dispatch (live : Bool) (h : m.Leashed) :
    Shift m (m.dispatch c live r).state := by
  by_cases hd : m.disposed = true
  · rw [dispatch_of_disposed hd]
    exact (calm_refresh m).shift h
  · rw [dispatch, if_neg hd]
    cases hrunning : m.running with
    | some current =>
        have hqueued : ∀ m₁ : Machine σ, Calm m₁ (refresh { m₁ with queued := some r }) := by
          intro m₁
          have hset : Calm m₁ { m₁ with queued := some r } := calm_frame
          exact hset.trans (calm_refresh _)
        dsimp only
        split
        · exact (shift_stopRun h).trans (hqueued _)
        · exact (hqueued m).shift h
    | none =>
        have hruns := h.runs_eq_nil hrunning
        have hsignal : m.signal = none := h.signal_eq_none (by simp [hruns])
        have hbegun := calm_refresh { m with running := some r }
        dsimp only
        split
        · refine .renew (.inr ⟨_, r, hbegun.nextId, Nat.lt_succ_self _, hbegun.running, ?_⟩)
            (hbegun.signal.trans hsignal) (Nat.le_succ_of_le hbegun.nextId)
          have hnone := hbegun.runs.trans hruns
          simp [hnone]
        · exact .stay hbegun.runs (.inl hruns) hbegun.signal hbegun.nextId
            fun hd' => absurd (hbegun.disposed ▸ hd') hd

/-- Where no run was left, none is left but one that has not begun. -/
theorem Shift.renews (h : Shift m₁ m') (hruns : m₁.runs = []) (hsignal : m₁.signal = none)
    (hnext : m.nextId ≤ m₁.nextId) : Shift m m' := by
  cases h with
  | stay runs running signal nextId =>
      exact .renew (.inl (runs.trans hruns)) (signal.trans hsignal) (Nat.le_trans hnext nextId)
  | tell t only | park t run only =>
      rw [hruns] at only
      cases only
  | renew runs signal nextId =>
      refine .renew (runs.imp_right ?_) signal (Nat.le_trans hnext nextId)
      rintro ⟨n, r, hle, hlt, hrunning, hone⟩
      exact ⟨n, r, Nat.le_trans hnext hle, hlt, hrunning, hone⟩

theorem shift_finishRun (c : Setup σ) (hids : ∀ u ∈ m₁.runs, u.id = id)
    (hnext : m.nextId ≤ m₁.nextId) : Shift m (m₁.finishRun c id) := by
  have hruns : (m₁.cease id).runs = [] := by simpa [cease] using hids
  have hended : (m₁.cease id).Leashed := by
    refine ⟨?_, ?_, ?_, ?_, fun _ => rfl⟩ <;> simp [hruns]
    rfl
  have hrefresh := ((calm_refresh _).shift hended).renews hruns rfl hnext
  rw [finishRun_eq]
  split
  · exact hrefresh
  · split
    · exact hrefresh
    · exact ((shift_dispatch true hended).trans (calm_refresh _)).renews hruns rfl hnext

theorem Ends.shift (h : Ends c id m m') (hids : ∀ u ∈ m.runs, u.id = id) : Shift m m' := by
  obtain ⟨m₁, halike, rfl⟩ := h
  refine shift_finishRun c (fun u hu => ?_) (Nat.le_of_eq halike.nextId.symm)
  have hid : u.id ∈ m.runs.map (·.id) := halike.ids ▸ List.mem_map_of_mem hu
  obtain ⟨v, hv, hvu⟩ := List.mem_map.mp hid
  exact hvu ▸ hids v hv

/-- A run that begins, or that goes on behind a pause, can be told to stop at its next pause. -/
theorem shift_advanceRun (h : m.Leashed) (ht : t ∈ m.runs) : Shift m (m.advanceRun c t) := by
  obtain ⟨honly, -, -⟩ := h.only t ht
  have hids : ∀ u ∈ m.runs, u.id = t.id := by simp [honly]
  rw [advanceRun]
  cases hpaused : t.paused with
  | none =>
      -- no signal is held for it yet, so beginning cannot stop another run
      have hsignal : m.signal = none := h.signal_eq_none (by simp [honly, Run.stoppable, hpaused])
      have hgoing : t.stopped = false := by
        have hbegun := h.begun t ht
        cases hstopped : t.stopped with
        | false => rfl
        | true => simp [hpaused, hstopped] at hbegun
      obtain ⟨m₁, halike, heq, -⟩ | ⟨entry, -, hends | ⟨hd, run, _, _, _, hheeds, -, heq⟩⟩ :=
        beginRun_cases (c := c) (m := m) (t := t)
      · exact Ends.shift ⟨m₁, halike, heq⟩ hids
      · have hcalled : Calm m { m with calls := entry :: m.calls } := calm_frame
        exact hcalled.trans_shift (hends.shift hids)
      · have hstop : m.stopRun = m := by rw [stopRun, hsignal]
        dsimp only
        rw [heq]
        refine .park t run honly hgoing hheeds ?_ ?_ ?_ ?_ ?_ <;>
          simp [park, signalled, hstop, honly, hd]
  | some run =>
      obtain hends | ⟨run', world, hout, heq⟩ := fileProceeded_cases c t t.stopped
        (run.resume c.formatter t.stopped m.world) m
      · exact hends.shift hids
      · -- only a run that was not told to stop comes to another pause
        have hheeds := h.heeds t ht run hpaused
        have hgoing : t.stopped = false := by
          cases hstopped : t.stopped with
          | false => rfl
          | true =>
              rw [hstopped, hheeds.resume_stopped] at hout
              cases hout
        have hsignal : m.signal = some t.id := by
          have hsignal := h.signal
          simpa [honly, Run.stoppable, hpaused, hgoing] using hsignal.symm
        have hd : m.disposed = false := by
          refine Bool.eq_false_iff.mpr fun hd => ?_
          rw [h.disposed hd] at hsignal
          cases hsignal
        dsimp only
        rw [heq]
        refine .park t run' honly hgoing (hheeds.heeds_of_resume hout) ?_ ?_ ?_ ?_ ?_ <;>
          simp [park, honly, hsignal, hd]

theorem shift_dispose (c : Setup σ) (h : m.Leashed) : Shift m (m.dispose c) := by
  obtain ⟨world, warnings, heq⟩ := dispose_eq c m
  have hcalm := calm_disarm { m with disposed := true }
  rw [heq]
  generalize disarm { m with disposed := true } = m₀ at hcalm ⊢
  obtain ⟨hruns, hrunning, hsignal, -, hnext⟩ := hcalm
  have hrefresh := calm_refresh
    { m₀.stopRun with held := [], world, warnings, queued := none }
  cases hheld : m.signal with
  | none =>
      have hstop : m₀.stopRun = m₀ := by rw [stopRun, hsignal, hheld]
      rw [hstop] at hrefresh ⊢
      exact .stay (hrefresh.runs.trans hruns) (.inr (hrefresh.running.trans hrunning))
        (hrefresh.signal.trans hsignal) (Nat.le_trans hnext hrefresh.nextId)
        fun _ => hrefresh.signal.trans (hsignal.trans hheld)
  | some id =>
      obtain ⟨t, honly, rfl, -⟩ := h.held hheld
      have hstop : m₀.stopRun =
          { m₀ with signal := none, runs := [{ t with stopped := true }] } := by
        rw [stopRun, hsignal, hheld]
        simp [hruns, honly]
      rw [hstop] at hrefresh ⊢
      exact .tell t honly hheld hrefresh.runs (hrefresh.running.trans hrunning) hrefresh.signal
        (Nat.le_trans hnext hrefresh.nextId)

theorem shift_tell (c : Setup σ) (w : Waiter) (h : m.Leashed) : Shift m (m.tell c w) := by
  cases w with
  | observer n => exact calm_frame.shift h
  | leaver => exact (shift_dispose c h).trans calm_frame

theorem shift_perform (c : Setup σ) (j : Job) (h : m.Leashed) : Shift m (m.perform c j) := by
  cases j with
  | run id =>
      rw [perform]
      split
      next t hfind => exact shift_advanceRun h (List.mem_of_find?_eq_some hfind)
      next => exact (Calm.refl m).shift h
  | expire id =>
      rw [perform]
      split
      next t hfind =>
        have hfired : Calm m
            { m with armed := none, timers := m.timers.filter fun u => u.id != id } := calm_frame
        exact hfired.trans_shift (shift_dispatch true (h.calm hfired))
      next => exact (Calm.refl m).shift h
  | ask w =>
      rw [perform]
      split
      · exact shift_tell c w h
      · exact calm_frame.shift h
  | wake w => exact shift_tell c w h

theorem shift_triggerNow (c : Setup σ) (live : Bool) (asked : Except RequestFault Request)
    (h : m.Leashed) : Shift m (m.triggerNow c live asked).state := by
  have htriggered := triggeredNow c live asked m
  generalize m.triggerNow c live asked = x at htriggered ⊢
  cases htriggered with
  | disposed | misread => exact (Calm.refl m).shift h
  | refused r m₁ hd hm => exact hm.calm.shift h
  | dispatched r m₁ hd hm =>
      have hcalm := hm.calm.trans (calm_disarm m₁)
      exact hcalm.trans_shift (shift_dispatch live (h.calm hcalm))

/-- A run that was told to stop is not told otherwise, until it is over. -/
structure Told (id : Nat) (m : Machine σ) : Prop where
  known : id < m.nextId
  stopped : ∀ t ∈ m.runs, t.id = id → t.stopped = true

theorem Shift.nextId_le (h : Shift m m') : m.nextId ≤ m'.nextId := by
  cases h <;> assumption

/-- A run that is left and is not new was there before, and if it was told to stop it is told. -/
theorem Shift.exists_before (h : Shift m m') (ht : t ∈ m'.runs) (hid : t.id < m.nextId) :
    ∃ u ∈ m.runs, u.id = t.id ∧ (u.stopped = true → t.stopped = true) := by
  cases h with
  | stay runs => exact ⟨t, runs ▸ ht, rfl, id⟩
  | tell u only held runs =>
      obtain rfl : t = { u with stopped := true } := by simpa [runs] using ht
      exact ⟨u, by simp [only], rfl, fun _ => rfl⟩
  | park u run only going heeds runs =>
      obtain rfl : t = { u with paused := some run } := by simpa [runs] using ht
      exact ⟨u, by simp [only], rfl, fun h => h⟩
  | renew runs =>
      obtain hnone | ⟨n, r, hle, -, -, hone⟩ := runs
      · rw [hnone] at ht
        cases ht
      · -- a run that has not begun has a number of its own
        obtain rfl : t = { id := n, request := r } := by simpa [hone] using ht
        exact absurd hid (Nat.not_lt.mpr hle)

theorem Told.after_shift (h : Told id m) (hshift : Shift m m') : Told id m' := by
  refine ⟨Nat.lt_of_lt_of_le h.known hshift.nextId_le, fun t ht hid => ?_⟩
  obtain ⟨u, hu, hut, hstopped⟩ := hshift.exists_before ht (hid ▸ h.known)
  exact hstopped (h.stopped u hu (hut.trans hid))

end Machine

/-! ## Histories -/

namespace Moment

open Machine (Leashed Calm Shift Told)

variable {k : Moment σ} {a : Act σ} {id : Nat}

theorem leashed_start (s : σ) : (start s).machine.Leashed := by
  refine ⟨?_, rfl, ?_, ?_, fun _ => rfl⟩ <;> simp [start]

/-- What an act does to the run that is not over and to the signal that is held. -/
theorem shift_after (c : Setup σ) (a : Act σ) (h : k.machine.Leashed) :
    Shift k.machine (k.after c a).machine := by
  cases a with
  | trigger live asked => exact (Machine.calm_trigger c live asked _).shift h
  | triggerNow live asked => exact Machine.shift_triggerNow c live asked h
  | attach live => exact (Machine.calm_attach c live _).shift h
  | notice live n => exact (Machine.calm_notice c live n _).shift h
  | dispose => exact Machine.shift_dispose c h
  | wait w => exact Machine.calm_frame.shift h
  | change f => exact Machine.calm_frame.shift h
  | pass ms => exact Machine.calm_frame.shift h
  | gather =>
      rw [after]
      split <;> exact Machine.calm_frame.shift h
  | job =>
      rw [after]
      split
      · exact (Calm.refl _).shift h
      · exact Machine.shift_perform c _ h

/-- At every moment of every history the scheduler holds the signal by which its run is told to
stop. -/
theorem leashed_run {acts : List (Act σ)} (h : k.machine.Leashed) :
    (k.run c acts).machine.Leashed :=
  run_induction (P := fun k => k.machine.Leashed)
    (fun _ a _ h => h.after_shift (shift_after c a h)) h

/-- A run that was told to stop stays told. -/
theorem told_run {acts : List (Act σ)} (h : k.machine.Leashed) (htold : Told id k.machine) :
    Told id (k.run c acts).machine :=
  (run_induction (P := fun k => k.machine.Leashed ∧ Told id k.machine)
    (fun _ a _ h => ⟨h.1.after_shift (shift_after c a h.1), h.2.after_shift (shift_after c a h.1)⟩)
    ⟨h, htold⟩).2

end Moment

end TaskLine
