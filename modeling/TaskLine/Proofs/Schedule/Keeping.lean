import TaskLine.Proofs.Formatter.Extent
import TaskLine.Proofs.Schedule.Effects

/-!
# What stays true of the world

The scheduler lays hands on the world in a few ways only: a run reads and writes the host and tells
it of progress, and when everything ends the subscriptions do too. What each of the host's own
operations keeps, such as that its cursor is in its text, a whole run keeps (`Keeps.advanceRun`),
and all the rest of scheduling leaves the world alone. Neither does it attach the scheduler or
dispose of it (`Aloof`).
-/

namespace TaskLine

variable {σ : Type}

/-! ## Runs of the formatter -/

/-- What is written to the host, and what is told it of progress, keeps a property. -/
structure Formatter.Keeps (f : Formatter σ) (P : σ → Prop) : Prop where
  discreet : f.Discreet P
  line : ∀ replace ∈ f.host.replaceLine?, ∀ n line s, P s → P (replace n line s).state
  selecting : ∀ replace ∈ f.host.replaceSelecting?, ∀ n line sel s,
    P s → P (replace n line sel s).state
  all : ∀ replace ∈ f.host.replaceAll?, ∀ lines s, P s → P (replace lines s).state

namespace Formatter.Keeps

variable {f : Formatter σ} {P : σ → Prop} {s : σ} {ov : Overrides} {stopped : Bool}

theorem putBack (h : f.Keeps P) (hs : P s) (n : Int) (line : Text) (sel : Option Selection) :
    P (f.putBack ov n line sel s).state := by
  rw [putBack.eq_def]
  dsimp only
  split
  · exact hs
  · split
    next replace hr => exact h.selecting replace hr _ _ _ s hs
    next replace hr _ => exact h.line replace hr _ _ s hs
    next => exact hs

theorem formatCurrent (h : f.Keeps P) (hs : P s) : P (f.formatCurrent ov s).state := by
  rw [Formatter.formatCurrent]
  split
  · exact hs
  · split
    · exact hs
    · exact h.putBack hs ..

theorem formatLineAt (h : f.Keeps P) (hs : P s) (n : Int) :
    P (f.formatLineAt ov n s).state := by
  rw [Formatter.formatLineAt]
  split
  · exact hs
  · split
    · exact hs
    · exact h.putBack hs ..

theorem proceed (h : f.Keeps P) (hs : P s) (steps : List RunStep) (p : Progress) :
    P (FileRun.proceed f stopped steps p s).state := by
  have hclose : ∀ (p : Progress) {s : σ}, P s → P (p.close f s) := fun p s hs =>
    (Progress.view_close h.discreet s).symm ▸ hs
  induction steps generalizing p s with
  | nil => exact hclose p hs
  | cons step rest ih =>
      cases step with
      | pause => exact hs
      | appear => exact ih ((Progress.view_appear h.discreet s).symm ▸ hs) _
      | advance n => exact ih ((Progress.view_advance h.discreet n s).symm ▸ hs) _
      | complete => exact ih ((Progress.view_complete h.discreet s).symm ▸ hs) _
      | finish changed => exact hclose p hs
      | heedStop =>
          rw [FileRun.proceed]
          split
          · exact hclose p hs
          · exact ih hs p
      | writeLine n line =>
          rw [FileRun.proceed]
          split
          · exact ih hs p
          next replace hr =>
            have hwritten := h.line replace hr n line s hs
            split <;> rename_i hresult <;> rw [hresult] at hwritten
            · exact ih hwritten p
            · exact hclose p hwritten
      | writeAll lines =>
          rw [FileRun.proceed]
          split
          · exact ih hs p
          next replace hr =>
            have hwritten := h.all replace hr lines s hs
            split <;> rename_i hresult <;> rw [hresult] at hwritten
            · exact ih hwritten p
            · exact hclose p hwritten

theorem startFile (h : f.Keeps P) (hs : P s) (lines : List Text) :
    P (f.startFile ov (lines.map some) stopped s).state := by
  rw [FileRun.startFile_eq]
  split
  · exact hs
  · exact h.proceed ((Progress.view_begin h.discreet ..).symm ▸ hs) ..

end Formatter.Keeps

/-! ## Runs of the scheduler -/

namespace Machine

variable {c : Setup σ} {P : σ → Prop} {m m₁ m₂ : Machine σ} {t : Run} {id : Nat} {r : Request}

/-- Between two machines the world was left alone, and the scheduler was neither attached nor
disposed of. -/
structure Aloof (m m' : Machine σ) : Prop where
  world : m'.world = m.world
  attached : m'.attached = m.attached
  disposed : m'.disposed = m.disposed

theorem Aloof.refl (m : Machine σ) : Aloof m m := ⟨rfl, rfl, rfl⟩

theorem Aloof.trans (h₁ : Aloof m m₁) (h₂ : Aloof m₁ m₂) : Aloof m m₂ :=
  ⟨h₂.world.trans h₁.world, h₂.attached.trans h₁.attached, h₂.disposed.trans h₁.disposed⟩

theorem aloof_refresh (m : Machine σ) : Aloof m m.refresh := by
  obtain ⟨_, _, h⟩ := exists_refresh m
  rw [h]
  exact ⟨rfl, rfl, rfl⟩

theorem aloof_disarm (m : Machine σ) : Aloof m m.disarm := by
  rw [disarm]
  split <;> exact ⟨rfl, rfl, rfl⟩

theorem aloof_stopRun (m : Machine σ) : Aloof m m.stopRun := by
  rw [stopRun]
  split <;> exact ⟨rfl, rfl, rfl⟩

theorem Warned.aloof (h : Warned m m₁) : Aloof m m₁ := by
  obtain ⟨warnings, rfl⟩ := h
  exact ⟨rfl, rfl, rfl⟩

theorem aloof_dispatch {live : Bool} : Aloof m (m.dispatch c live r).state := by
  rw [dispatch]
  split
  · exact aloof_refresh m
  · split
    · have hqueued : ∀ m₁ : Machine σ, Aloof m₁ (refresh { m₁ with queued := some r }) := by
        intro m₁
        have hset : Aloof m₁ { m₁ with queued := some r } := ⟨rfl, rfl, rfl⟩
        exact hset.trans (aloof_refresh _)
      dsimp only
      split
      · exact (aloof_stopRun m).trans (hqueued _)
      · exact hqueued m
    · have hbegun := aloof_refresh { m with running := some r }
      dsimp only
      split <;> exact ⟨hbegun.world, hbegun.attached, hbegun.disposed⟩

theorem aloof_finishRun : Aloof m (m.finishRun c id) := by
  have hended : Aloof m (m.cease id) := ⟨rfl, rfl, rfl⟩
  rw [finishRun_eq]
  split
  · exact hended.trans (aloof_refresh _)
  · split
    · exact hended.trans (aloof_refresh _)
    · exact (hended.trans aloof_dispatch).trans (aloof_refresh _)

theorem aloof_trigger (c : Setup σ) (live : Bool) (asked : Except RequestFault Request)
    (m : Machine σ) : Aloof m (m.trigger c live asked).state := by
  have htriggered := triggered c live asked m
  generalize m.trigger c live asked = x at htriggered ⊢
  cases htriggered with
  | disposed | misread => exact .refl m
  | refused r m₁ hd hm => exact ((aloof_disarm m).trans hm.aloof).trans (aloof_refresh m₁)
  | armed r m₁ hd hm =>
      have harm : Aloof m₁ (m₁.arm c r) := ⟨rfl, rfl, rfl⟩
      exact (((aloof_disarm m).trans hm.aloof).trans harm).trans (aloof_refresh _)
  | stranded r m₁ hd hm => exact (aloof_disarm m).trans hm.aloof

theorem aloof_triggerNow (c : Setup σ) (live : Bool) (asked : Except RequestFault Request)
    (m : Machine σ) : Aloof m (m.triggerNow c live asked).state := by
  have htriggered := triggeredNow c live asked m
  generalize m.triggerNow c live asked = x at htriggered ⊢
  cases htriggered with
  | disposed | misread => exact .refl m
  | refused r m₁ hd hm => exact hm.aloof
  | dispatched r m₁ hd hm => exact (hm.aloof.trans (aloof_disarm m₁)).trans aloof_dispatch

theorem aloof_notice (c : Setup σ) (live : Bool) (n : Notice) (m : Machine σ) :
    Aloof m (m.notice c live n) := by
  have h := aloof_trigger c live (.ok (requestOf n)) m
  rw [notice]
  split <;> rename_i heq <;> rw [heq] at h
  · exact h
  · exact h.trans ⟨rfl, rfl, rfl⟩

/-- Between two machines the world was worked on and has a property by now, and the scheduler was
neither attached nor disposed of. -/
structure Worked (P : σ → Prop) (m m' : Machine σ) : Prop where
  world : P m'.world
  attached : m'.attached = m.attached
  disposed : m'.disposed = m.disposed

theorem Aloof.worked (h : Aloof m m₁) (hworked : Worked P m₁ m₂) : Worked P m m₂ :=
  ⟨hworked.world, hworked.attached.trans h.attached, hworked.disposed.trans h.disposed⟩

theorem worked_finishRun (hworld : P m.world) : Worked P m (m.finishRun c id) := by
  have h : Aloof m (m.finishRun c id) := aloof_finishRun
  exact ⟨h.world ▸ hworld, h.attached, h.disposed⟩

theorem worked_failRun (message : Text) (hworld : P m.world) :
    Worked P m (m.failRun c t message) := by
  have hwarned (w : Warning) : Aloof m (m.warn w) := ⟨rfl, rfl, rfl⟩
  exact (hwarned _).worked (worked_finishRun hworld)

theorem worked_call (entry : Call) {work : Machine σ → Machine σ} (hworld : P m.world)
    (hwork : ∀ m₁ : Machine σ, P m₁.world → Worked P m₁ (work m₁)) :
    Worked P m (m.call c t entry work) := by
  have hcalled : Aloof m { m with calls := entry :: m.calls } := ⟨rfl, rfl, rfl⟩
  refine hcalled.worked ?_
  rw [call.eq_def]
  dsimp only
  split
  · exact worked_failRun _ hworld
  · exact hwork _ hworld

theorem worked_fileProceeded (stopped : Bool) {o : FileRun.Outcome σ} (hstate : P o.state) :
    Worked P m (m.fileProceeded c t stopped o) := by
  cases o with
  | paused run world => exact ⟨hstate, rfl, rfl⟩
  | ended changed world =>
      have h : Worked P { m with world, calls := .fileEnd changed stopped :: m.calls }
          (m.fileProceeded c t stopped (.ended changed world)) := worked_finishRun hstate
      exact ⟨h.world, h.attached, h.disposed⟩
  | failed e world =>
      have h : Worked P { m with world } (m.fileProceeded c t stopped (.failed e world)) :=
        worked_failRun _ hstate
      exact ⟨h.world, h.attached, h.disposed⟩

theorem worked_lineFormatted {x : Attempt RunFault σ Bool} (hstate : P x.state) :
    Worked P m (m.lineFormatted c t x) := by
  have h : Worked P { m with world := x.state } (m.lineFormatted c t x) := by
    obtain ⟨_ | _, world⟩ := x
    · exact worked_failRun _ hstate
    · exact worked_finishRun hstate
  exact ⟨h.world, h.attached, h.disposed⟩

end Machine

open Machine

namespace Formatter.Keeps

variable {c : Setup σ} {P : σ → Prop} {m : Machine σ} {t : Run}

theorem beginFile (h : c.formatter.Keeps P) (hworld : P m.world) :
    Worked P m (m.beginFile c t) := by
  rw [beginFile.eq_def]
  split
  · exact worked_finishRun hworld
  next lines hlines =>
    have hstopped := aloof_stopRun m
    have hsignalled : Aloof m (m.signalled t.id) :=
      ⟨hstopped.world, hstopped.attached, hstopped.disposed⟩
    exact hsignalled.worked (worked_call _ (hstopped.world ▸ hworld) fun m₁ hm₁ =>
      worked_fileProceeded _ (h.startFile hm₁ lines))

theorem beginRun (h : c.formatter.Keeps P) (hworld : P m.world) :
    Worked P m (m.beginRun c t) := by
  obtain ⟨warnings, hread⟩ := readSwitches_eq c m
  rw [beginRun.eq_def]
  split
  · exact worked_finishRun hworld
  · simp only [hread]
    have hwarned : Aloof m { m with warnings } := ⟨rfl, rfl, rfl⟩
    refine hwarned.worked ?_
    split
    · exact worked_finishRun hworld
    · split
      · exact h.beginFile hworld
      · exact worked_call _ hworld fun m₁ hm₁ => worked_lineFormatted (h.formatLineAt hm₁ _)
      · exact worked_call _ hworld fun m₁ hm₁ => worked_lineFormatted (h.formatCurrent hm₁)

/-- Whatever a run does, it keeps what the host's operations keep. -/
theorem advanceRun (h : c.formatter.Keeps P) (hworld : P m.world) :
    Worked P m (m.advanceRun c t) := by
  rw [Machine.advanceRun]
  split
  · exact h.beginRun hworld
  · exact worked_fileProceeded _ (h.proceed hworld ..)

end Formatter.Keeps

end TaskLine
