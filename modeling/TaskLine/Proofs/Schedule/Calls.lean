import TaskLine.Proofs.Schedule.Turns

/-!
# Calls of the formatter

A run that begins calls the formatter once, for what its request says, provided that the master
switch is on by then. Nothing else calls the formatter (`entries_after`).
-/

namespace TaskLine

variable {σ : Type} {c : Setup σ}

namespace Machine

variable {m m₁ : Machine σ} {t : Run} {live : Bool} {asked : Except RequestFault Request}

/-! ## Runs -/

/-- The calls of the formatter that were made. -/
def entries (m : Machine σ) : List Call := m.calls.filter Call.isEntry

theorem Quiet.entries (h : Quiet m m₁) : m₁.entries = m.entries := by
  rw [Machine.entries, h.calls, Machine.entries]

theorem entries_failRun (message : Text) : (m.failRun c t message).entries = m.entries :=
  quiet_finishRun.entries

theorem entries_fileProceeded (stopped : Bool) (o : FileRun.Outcome σ) :
    (m.fileProceeded c t stopped o).entries = m.entries := by
  cases o with
  | paused run world => rfl
  | ended changed world => exact quiet_finishRun.entries
  | failed e world => exact entries_failRun _

theorem entries_lineFormatted (x : Attempt RunFault σ Bool) :
    (m.lineFormatted c t x).entries = m.entries := by
  obtain ⟨_ | _, world⟩ := x
  · exact entries_failRun _
  · exact quiet_finishRun.entries

theorem entries_call {entry : Call} {work : Machine σ → Machine σ} (hentry : entry.isEntry = true)
    (hwork : ∀ m, (work m).entries = m.entries) :
    (m.call c t entry work).entries = entry :: m.entries := by
  have hcalled : entries { m with calls := entry :: m.calls } = entry :: m.entries :=
    List.filter_cons_of_pos hentry
  rw [call.eq_def]
  dsimp only
  split
  · exact (entries_failRun _).trans hcalled
  · exact (hwork _).trans hcalled

theorem entries_beginFile :
    (m.beginFile c t).entries =
      ((c.allLines?.bind fun f => f m.world).map fun lines => Call.file lines.length).toList
        ++ m.entries := by
  rw [beginFile.eq_def]
  split
  next hnone =>
    rw [show (c.allLines?.bind fun f => f m.world) = none from hnone]
    exact quiet_finishRun.entries
  next lines hlines =>
    rw [show (c.allLines?.bind fun f => f m.world) = some lines from hlines,
      entries_call rfl fun m => entries_fileProceeded ..]
    exact congrArg _ (quiet_stopRun m).entries

/-- A run that begins calls the formatter for its request, unless the scheduler was disposed of or
the master switch is off. -/
theorem entries_beginRun :
    (m.beginRun c t).entries =
      (if m.disposed = false ∧ (c.flags m.world).master = true then
        (c.entry? t.request m.world).toList else []) ++ m.entries := by
  obtain ⟨warnings, hread⟩ := readSwitches_eq c m
  rw [beginRun.eq_def]
  split
  next hd =>
    rw [if_neg (by simp [hd])]
    exact quiet_finishRun.entries
  next hd =>
    simp only [hread]
    split
    next hmaster =>
      rw [if_neg (by simpa using fun _ => hmaster)]
      exact quiet_finishRun.entries
    next hmaster =>
      rw [if_pos ⟨by simpa using hd, by simpa using hmaster⟩]
      split
      next hscope =>
        rw [Setup.entry?, if_pos hscope]
        exact entries_beginFile
      next n htarget hscope =>
        rw [Setup.entry?, if_neg hscope, htarget]
        exact entries_call rfl fun m => entries_lineFormatted _
      next htarget hscope =>
        rw [Setup.entry?, if_neg hscope, htarget]
        exact entries_call rfl fun m => entries_lineFormatted _

theorem entries_advanceRun :
    (m.advanceRun c t).entries =
      (if t.paused = none ∧ m.disposed = false ∧ (c.flags m.world).master = true then
        (c.entry? t.request m.world).toList else []) ++ m.entries := by
  rw [advanceRun]
  cases hpaused : t.paused with
  | none => simpa using entries_beginRun
  | some run =>
      rw [if_neg (by simp)]
      exact entries_fileProceeded ..

/-! ## Everything else -/

theorem calls_disarm (m : Machine σ) : m.disarm.calls = m.calls := by
  rw [disarm]
  split <;> rfl

theorem calls_trigger :
    (m.trigger c live asked).state.calls = m.calls := by
  have htriggered := triggered c live asked m
  generalize m.trigger c live asked = x at htriggered ⊢
  have hwarned : ∀ m₁, Warned m.disarm m₁ → m₁.calls = m.calls := by
    rintro m₁ ⟨warnings, rfl⟩
    exact calls_disarm m
  cases htriggered with
  | disposed | misread => rfl
  | refused r m₁ hd hm => exact (quiet_refresh m₁).calls.trans (hwarned m₁ hm)
  | armed r m₁ hd hm => exact (quiet_refresh (m₁.arm c r)).calls.trans (hwarned m₁ hm)
  | stranded r m₁ hd hm => exact hwarned m₁ hm

theorem calls_notice {n : Notice} (m : Machine σ) : (m.notice c live n).calls = m.calls := by
  rw [notice]
  split <;> rename_i heq <;>
    exact (congrArg (fun x => x.state.calls) heq).symm.trans calls_trigger

theorem calls_triggerNow :
    (m.triggerNow c live asked).state.calls = m.calls := by
  have htriggered := triggeredNow c live asked m
  generalize m.triggerNow c live asked = x at htriggered ⊢
  cases htriggered with
  | disposed | misread => rfl
  | refused r m₁ hd hm =>
      obtain ⟨warnings, rfl⟩ := hm
      rfl
  | dispatched r m₁ hd hm =>
      obtain ⟨warnings, rfl⟩ := hm
      exact quiet_dispatch.calls.trans (calls_disarm _)

theorem calls_dispose (m : Machine σ) : (m.dispose c).calls = m.calls := by
  obtain ⟨world, warnings, heq⟩ := dispose_eq c m
  rw [heq, (quiet_refresh _).calls]
  exact (quiet_stopRun _).calls.trans (calls_disarm _)

theorem calls_attach (m : Machine σ) : (m.attach c live).calls = m.calls := by
  have hsubscribe : ∀ (offered : List (HostEvent × (σ → Subscription × σ))) (m : Machine σ),
      (offered.foldl (fun m o => m.subscribe o.1 o.2) m).calls = m.calls := by
    intro offered
    induction offered with
    | nil => exact fun m => rfl
    | cons o offered ih =>
        intro m
        refine (ih _).trans ?_
        dsimp only
        rw [subscribe.eq_def]
        dsimp only
        split <;> rfl
  rw [attach]
  split
  · rfl
  · dsimp only
    split
    · split <;> rename_i heq <;>
        exact (congrArg (fun x => x.state.calls) heq).symm.trans
          (calls_trigger.trans (hsubscribe _ _))
    · exact hsubscribe _ _

theorem calls_tell (w : Waiter) (m : Machine σ) : (m.tell c w).calls = m.calls := by
  cases w with
  | observer n => rfl
  | leaver => exact calls_dispose m
end Machine

namespace Moment

variable {k : Moment σ} {a : Act σ} {r : Request}

/-- The request whose run an act begins. -/
def began? (k : Moment σ) (a : Act σ) : Option Request :=
  ((k.goesOn? a).filter fun t => t.paused.isNone).map (·.request)

theorem eq_job_of_began (h : k.began? a = some r) : a = .job := by
  cases a with
  | job => rfl
  | _ => cases h

/-- The formatter is called by the run that an act begins, for what its request says, while the
master switch is on; and it is not called otherwise. -/
theorem entries_after (c : Setup σ) (k : Moment σ) (a : Act σ) :
    (k.after c a).machine.entries = k.machine.entries ∨
      ∃ r call, k.began? a = some r ∧ c.entry? r k.machine.world = some call ∧
        (c.flags k.machine.world).master = true ∧
        (k.after c a).machine.entries = call :: k.machine.entries := by
  have hcalls : ∀ m' : Machine σ, m'.calls = k.machine.calls → m'.entries = k.machine.entries :=
    fun m' h => congrArg (List.filter Call.isEntry) h
  cases a with
  | trigger live asked => exact .inl (hcalls _ Machine.calls_trigger)
  | triggerNow live asked => exact .inl (hcalls _ Machine.calls_triggerNow)
  | attach live => exact .inl (hcalls _ (Machine.calls_attach _))
  | notice live n => exact .inl (hcalls _ (Machine.calls_notice _))
  | dispose => exact .inl (hcalls _ (Machine.calls_dispose _))
  | gather =>
      rw [after]
      split <;> exact .inl rfl
  | job =>
      obtain ⟨m, rest⟩ := k
      cases rest with
      | nil => exact .inl rfl
      | cons j rest =>
          cases j with
          | run id =>
              simp only [after, Machine.perform, began?, goesOn?]
              cases hfind : m.runs.find? fun t => t.id = id with
              | none => exact .inl rfl
              | some t =>
                  dsimp only
                  rw [Machine.entries_advanceRun]
                  split
                  next hbegins =>
                    obtain ⟨hpaused, -, hmaster⟩ := hbegins
                    cases hentry : c.entry? t.request m.world with
                    | none => exact .inl rfl
                    | some call =>
                        exact .inr ⟨_, call, by simp [Option.filter, hpaused], hentry, hmaster, rfl⟩
                  next => exact .inl rfl
          | expire id =>
              simp only [after, Machine.perform]
              split
              · exact .inl (hcalls _ Machine.quiet_dispatch.calls)
              · exact .inl rfl
          | ask w =>
              simp only [after, Machine.perform]
              split
              · exact .inl (hcalls _ (Machine.calls_tell w m))
              · exact .inl rfl
          | wake w => exact .inl (hcalls _ (Machine.calls_tell w m))
  | _ => exact .inl rfl

end Moment

end TaskLine
