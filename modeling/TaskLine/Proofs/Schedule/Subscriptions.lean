import Mathlib.Data.List.Nodup
import TaskLine.Proofs.Schedule.Disposal
import TaskLine.Proofs.Schedule.Keeping
import TaskLine.Proofs.Schedule.Pending

/-!
# Subscriptions

Attaching subscribes to the events that the host offers, and disposing unsubscribes. To see that
neither happens twice the host is given a record of what it is called for (`Setup.recorded`), which
changes nothing else (`Machine.plain_run`). However often and in whatever order the scheduler is
attached and disposed of, all but the first call of either kind come to nothing
(`Machine.run_bindings`). So the record tells of every offered event once if the first call of all
is one that attaches, and of every way to unsubscribe once as soon as the scheduler is disposed of
(`subscriptions_balanced`). What the host fails to do is only warned of.
-/

namespace TaskLine

variable {σ : Type} {c : Setup σ}

/-! ## Attaching and disposing in any order -/

/-- What binds the scheduler to its host or frees it. -/
inductive Binding where
  | attach (live : Bool)
  | dispose
deriving DecidableEq

namespace Binding

/-- The act of the scheduler. -/
def act : Binding → Act σ
  | .attach live => .attach live
  | .dispose => .dispose

/-- Whether there is a loop for the first attach, if it comes before the first dispose. -/
def opening? : List Binding → Option Bool
  | .attach live :: _ => some live
  | _ => none

/-- There is one exactly if an attach comes before the first dispose. -/
theorem isSome_opening?_iff {bs : List Binding} :
    (opening? bs).isSome = true ↔ ∃ live, .attach live ∈ bs.takeWhile (· ≠ .dispose) := by
  cases bs with
  | nil => simp [opening?]
  | cons b bs => cases b <;> simp [opening?]

end Binding

open Binding (opening?)

namespace Machine

variable {m : Machine σ}

theorem attached_attach (c : Setup σ) (live : Bool) (h : m.disposed = false) :
    (m.attach c live).attached = true := by
  rw [attach]
  split
  next hdone => simpa [h] using hdone
  next =>
    dsimp only
    generalize events.filterMap (fun e => (c.subscribe? e).map fun hook => (e, hook)) = offered
    have hsubscribed : ∀ os : List (HostEvent × (σ → Subscription × σ)), ∀ m₁ : Machine σ,
        (os.foldl (fun m o => m.subscribe o.1 o.2) m₁).attached = m₁.attached := by
      intro os
      induction os with
      | nil => exact fun _ => rfl
      | cons o os ih =>
          intro m₁
          rw [List.foldl_cons, ih, subscribe.eq_def]
          dsimp only
          split <;> rfl
    split
    · have htrigger := (aloof_trigger c live (.ok single)
        (offered.foldl (fun m o => m.subscribe o.1 o.2) { m with attached := true })).attached
      rw [hsubscribed, single] at htrigger
      split <;> rename_i heq <;> rw [heq] at htrigger <;> exact htrigger
    · exact hsubscribed offered _

/-- An attached scheduler is not attached again, and neither is one that was disposed of. -/
theorem attach_eq_self (c : Setup σ) (live : Bool) (h : m.attached = true ∨ m.disposed = true) :
    m.attach c live = m := by
  rw [attach, if_pos (by simpa using h)]

/-- The scheduler when it has been attached, if it is. -/
def opened (c : Setup σ) (live? : Option Bool) (m : Machine σ) : Machine σ :=
  match live? with
  | some live => m.attach c live
  | none => m

/-- The scheduler when it has been disposed of, if it is. -/
def closed (c : Setup σ) (bs : List Binding) (m : Machine σ) : Machine σ :=
  if .dispose ∈ bs then m.dispose c else m

/-- When everything is over neither kind of call does anything. -/
theorem Over.run_bindings (h : m.Over) (bs : List Binding) :
    (⟨m, []⟩ : Moment σ).run c (bs.map Binding.act) = ⟨m, []⟩ := by
  induction bs with
  | nil => rfl
  | cons b bs ih =>
      rw [List.map_cons, Moment.run_cons]
      cases b with
      | attach live =>
          rw [Binding.act, Moment.after, attach_eq_self c live (.inr h.disposed)]
          exact ih
      | dispose =>
          rw [Binding.act, Moment.after, h.dispose_eq_self]
          exact ih

/-- When the scheduler is attached only the first dispose does anything. -/
theorem Leashed.run_bindings (h : m.Leashed) (hattached : m.attached = true) (bs : List Binding) :
    (⟨m, []⟩ : Moment σ).run c (bs.map Binding.act) = ⟨m.closed c bs, []⟩ := by
  induction bs with
  | nil => rfl
  | cons b bs ih =>
      rw [List.map_cons, Moment.run_cons]
      cases b with
      | attach live =>
          rw [Binding.act, Moment.after, attach_eq_self c live (.inl hattached), ih]
          simp [closed]
      | dispose =>
          rw [Binding.act, Moment.after, (over_dispose c h).run_bindings, closed,
            if_pos List.mem_cons_self]

/-- Of all the calls only the first one can attach, and only the first one that disposes does
anything. -/
theorem run_bindings (c : Setup σ) (s : σ) (bs : List Binding) :
    (Moment.start s).run c (bs.map Binding.act) =
      ⟨(({ world := s } : Machine σ).opened c (opening? bs)).closed c bs, []⟩ := by
  have hstart : ({ world := s } : Machine σ).Leashed := Moment.leashed_start s
  cases bs with
  | nil => rfl
  | cons b bs =>
      rw [List.map_cons, Moment.run_cons]
      cases b with
      | attach live =>
          have hleashed : (({ world := s } : Machine σ).attach c live).Leashed := by
            have hrun : ((Moment.start s).run c [.attach live]).machine.Leashed :=
              Moment.leashed_run (Moment.leashed_start s)
            exact hrun
          have hrest := hleashed.run_bindings (c := c) (attached_attach c live rfl) bs
          rw [show (({ world := s } : Machine σ).opened c (opening? (.attach live :: bs))).closed c
              (.attach live :: bs) = (({ world := s } : Machine σ).attach c live).closed c bs by
            simp [closed, opened, opening?]]
          exact hrest
      | dispose =>
          rw [closed, if_pos List.mem_cons_self]
          exact (over_dispose c hstart).run_bindings bs

end Machine

/-! ## The record -/

/-- What the host is called for about an event, and what comes of it. -/
inductive Contact where
  | hooked (done : HostEvent × Subscription)
  /-- A way to unsubscribe is used. -/
  | unhooked (done : HostEvent × Option Text)
deriving DecidableEq

namespace Setup

/-- A way to subscribe that keeps a record. -/
def recording (event : HostEvent) (hook : σ → Subscription × σ) (t : σ × List Contact) :
    Subscription × (σ × List Contact) :=
  ((hook t.1).1, ((hook t.1).2, t.2 ++ [.hooked (event, (hook t.1).1)]))

/-- The host keeps a record of what it is called for. -/
def recorded (c : Setup σ) : Setup (σ × List Contact) where
  formatter :=
    { host := c.formatter.host.within Prod.fst fun s t => (s, t.2)
      pace := c.formatter.pace
      clock := fun t => ((c.formatter.clock t.1).1, ((c.formatter.clock t.1).2, t.2)) }
  allLines? := c.allLines?.map fun f t => f t.1
  subscribe? event := (c.subscribe? event).map (recording event)
  unsubscribe event t :=
    ((c.unsubscribe event t.1).1,
      ((c.unsubscribe event t.1).2, t.2 ++ [.unhooked (event, (c.unsubscribe event t.1).1)]))
  switches t := c.switches t.1
  delay := c.delay
  failing := c.failing
  ownLoop := c.ownLoop
  leave t := (c.leave t.1, t.2)

/-- The events that the host offers. -/
def offered (c : Setup σ) : List HostEvent :=
  Machine.events.filter fun e => (c.subscribe? e).isSome

/-- No event is offered twice. -/
theorem count_offered (c : Setup σ) (e : HostEvent) :
    c.offered.count e = if (c.subscribe? e).isSome then 1 else 0 := by
  have hnodup : Machine.events.Nodup := by decide
  have hmem : e ∈ Machine.events := by cases e <;> decide
  split
  next hsome =>
    exact List.count_eq_one_of_mem (hnodup.filter _) (List.mem_filter.mpr ⟨hmem, hsome⟩)
  next hnone => exact List.count_eq_zero.mpr fun h => hnone (List.mem_filter.mp h).2

/-- What is said when the switches are read. -/
def complaints (c : Setup σ) (s : σ) : List Warning :=
  (c.switches s).1 ++ match (c.switches s).2 with
    | .ok _ => []
    | .error message => [.settingsFailed message]

/-- The single request, if the switches let it through and there is a loop. -/
def single? (c : Setup σ) (s : σ) (live : Bool) : Option Request :=
  if (c.flags s).allows .manual && (live || c.ownLoop) then some Machine.single else none

/-- What is said when the single request is made. -/
def singleComplaints (c : Setup σ) (s : σ) (live : Bool) : List Warning :=
  c.complaints s ++
    if (c.flags s).allows .manual && !(live || c.ownLoop) then
      [.singleRunFailed TriggerFault.noLoop.message]
    else []

end Setup

/-- The events for which there is a way to unsubscribe. -/
def heldBy (hooked : List (HostEvent × Subscription)) : List HostEvent :=
  (hooked.filter fun h => h.2 = .held).map Prod.fst

/-- What is said when subscribing fails. -/
def hookFailure? : HostEvent × Subscription → Option Warning
  | (event, .failed message) => some (.subscribeFailed event message)
  | (_, .held) | (_, .loose) => none

/-- What is said when unsubscribing fails. -/
def unhookFailure? (u : HostEvent × Option Text) : Option Warning :=
  u.2.map Warning.unsubscribeFailed

namespace Machine

/-- The machine without the record of its host. -/
def plain (m : Machine (σ × List Contact)) : Machine σ := { m with world := m.world.1 }

theorem subscribe_recording (e : HostEvent) (hook : σ → Subscription × σ)
    (m : Machine (σ × List Contact)) :
    ∃ result, m.subscribe e (Setup.recording e hook) =
      { m with
        world := ((hook m.world.1).2, m.world.2 ++ [.hooked (e, result)])
        held := m.held ++ heldBy [(e, result)]
        warnings := (hookFailure? (e, result)).toList ++ m.warnings } := by
  refine ⟨(hook m.world.1).1, ?_⟩
  rw [subscribe.eq_def, Setup.recording]
  dsimp only
  cases (hook m.world.1).1 with
  | held => rfl
  | loose | failed message => simp [heldBy, hookFailure?, warn]

/-- Subscribing to the events that the host offers, each of which is told in the record. -/
theorem foldl_subscribe_recorded (c : Setup σ) (es : List HostEvent)
    (m : Machine (σ × List Contact)) :
    ∃ world hooked, hooked.map Prod.fst = es.filter (fun e => (c.subscribe? e).isSome) ∧
      (es.filterMap fun e => (c.recorded.subscribe? e).map fun hook => (e, hook)).foldl
          (fun m o => m.subscribe o.1 o.2) m =
        { m with
          world := (world, m.world.2 ++ hooked.map .hooked)
          held := m.held ++ heldBy hooked
          warnings := (hooked.filterMap hookFailure?).reverse ++ m.warnings } := by
  induction es generalizing m with
  | nil => exact ⟨m.world.1, [], rfl, by simp [heldBy]⟩
  | cons e es ih =>
      have hsubscribe : c.recorded.subscribe? e = (c.subscribe? e).map (Setup.recording e) := rfl
      cases hhook : c.subscribe? e with
      | none =>
          rw [List.filterMap_cons_none (by rw [hsubscribe, hhook]; rfl),
            List.filter_cons_of_neg (by simp [hhook])]
          exact ih m
      | some hook =>
          obtain ⟨result, hone⟩ := subscribe_recording e hook m
          obtain ⟨world, hooked, hevents, hrest⟩ := ih (m.subscribe e (Setup.recording e hook))
          refine ⟨world, (e, result) :: hooked, ?_, ?_⟩
          · rw [List.map_cons, hevents, List.filter_cons_of_pos (by simp [hhook])]
          · rw [List.filterMap_cons_some (by rw [hsubscribe, hhook]; rfl), List.foldl_cons, hrest,
              hone]
            have hheld : heldBy ((e, result) :: hooked) =
                heldBy [(e, result)] ++ heldBy hooked := by
              rw [heldBy, heldBy, heldBy, ← List.map_append, ← List.filter_append]
              rfl
            rw [hheld]
            cases hfailure : hookFailure? (e, result) <;> simp [hfailure]

/-- Using ways to unsubscribe, each of which is told in the record. -/
theorem foldl_unsubscribe_recorded (c : Setup σ) (es : List HostEvent) (t : σ × List Contact) :
    ∃ (world : σ) (unhooked : List (HostEvent × Option Text)), unhooked.map Prod.fst = es ∧
      ∀ m : Machine (σ × List Contact), m.world = t →
        es.foldl (fun m e => m.unsubscribe c.recorded e) m =
          { m with
            world := (world, t.2 ++ unhooked.map .unhooked)
            warnings := (unhooked.filterMap unhookFailure?).reverse ++ m.warnings } := by
  induction es generalizing t with
  | nil => exact ⟨t.1, [], rfl, fun m hm => by simp [← hm]⟩
  | cons e es ih =>
      let failed := (c.unsubscribe e t.1).1
      obtain ⟨world, unhooked, hevents, hrest⟩ :=
        ih ((c.unsubscribe e t.1).2, t.2 ++ [.unhooked (e, failed)])
      refine ⟨world, (e, failed) :: unhooked, by rw [List.map_cons, hevents], fun m hm => ?_⟩
      have hone : m.unsubscribe c.recorded e =
          { m with
            world := ((c.unsubscribe e t.1).2, t.2 ++ [.unhooked (e, failed)])
            warnings := (unhookFailure? (e, failed)).toList ++ m.warnings } := by
        rw [unsubscribe.eq_def, Setup.recorded]
        dsimp only
        rw [hm]
        cases hfailed : (c.unsubscribe e t.1).1 <;> simp [failed, hfailed, unhookFailure?, warn]
      rw [List.foldl_cons, hrest _ (by rw [hone]), hone]
      cases hfailure : unhookFailure? (e, failed) <;> simp [hfailure]

/-! ## Attaching -/

theorem readSwitches_complaints (c : Setup σ) (m : Machine σ) :
    m.readSwitches c =
      (c.flags m.world, { m with warnings := (c.complaints m.world).reverse ++ m.warnings }) := by
  have hwarned : ∀ (ws : List Warning) (m : Machine σ),
      ws.foldl (fun m w => m.warn w) m = { m with warnings := ws.reverse ++ m.warnings } := by
    intro ws
    induction ws with
    | nil => exact fun _ => rfl
    | cons w ws ih => intro m; rw [List.foldl_cons, ih]; simp [warn]
  rw [readSwitches.eq_def, Setup.flags, Setup.complaints]
  dsimp only
  rw [hwarned]
  cases (c.switches m.world).2 <;> simp [warn]

/-- A scheduler that nothing has happened to but attaching. -/
def standing {τ : Type} (world : τ) (attached : Bool) (held : List HostEvent)
    (warnings : List Warning) (delay : Nat) (request? : Option Request) : Machine τ :=
  { world, attached, held, warnings
    timers := request?.toList.map fun r => ⟨0, delay, r⟩
    armed := request?.map fun _ => 0
    nextId := request?.toList.length
    idle := request?.isNone }

/-- The single request of a scheduler that has only just been attached. -/
theorem trigger_single (c : Setup σ) (live : Bool) (s : σ) :
    (match trigger c live (.ok single) { world := s, attached := true } with
      | ⟨.ok _, m⟩ => m
      | ⟨.error e, m⟩ => m.warn (.singleRunFailed e.message)) =
      standing s true [] (c.singleComplaints s live).reverse c.delay (c.single? s live) := by
  rw [trigger.eq_def, if_neg Bool.false_ne_true]
  dsimp only
  rw [show disarm ({ world := s, attached := true } : Machine σ) =
      { world := s, attached := true } from rfl, readSwitches_complaints]
  dsimp only
  rw [Setup.singleComplaints, Setup.single?, show single.reason = .manual from rfl]
  generalize (c.flags s).allows .manual = allowed
  generalize (live || c.ownLoop) = loop
  cases allowed <;> cases loop <;> simp [single, standing, warn, refresh, atRest]

/-- Attaching for the first time. What is subscribed to does not depend on whether there is a
loop. -/
theorem attach_start (c : Setup σ) (s : σ) :
    ∃ world hooked, hooked.map Prod.fst = c.offered ∧ ∀ live,
      ({ world := (s, []) } : Machine (σ × List Contact)).attach c.recorded live =
        standing (world, hooked.map .hooked) true (heldBy hooked)
          (hooked.filterMap hookFailure? ++
            if c.offered = [] then c.singleComplaints s live else []).reverse
          c.delay (if c.offered = [] then c.single? s live else none) := by
  have hempty : (events.filterMap fun e =>
      (c.recorded.subscribe? e).map fun hook => (e, hook)).isEmpty = decide (c.offered = []) := by
    rw [Bool.eq_iff_iff]
    simp [Setup.offered, Setup.recorded]
  by_cases hnone : c.offered = []
  · refine ⟨s, [], hnone.symm, fun live => ?_⟩
    rw [decide_eq_true hnone] at hempty
    rw [attach, if_neg (by simp)]
    dsimp only
    rw [if_pos hempty, List.isEmpty_iff.mp hempty, List.foldl_nil, if_pos hnone, if_pos hnone]
    exact trigger_single c.recorded live (s, [])
  · obtain ⟨world, hooked, hevents, hfold⟩ :=
      foldl_subscribe_recorded c events { world := (s, []), attached := true }
    refine ⟨world, hooked, hevents, fun live => ?_⟩
    rw [decide_eq_false hnone] at hempty
    rw [attach, if_neg (by simp)]
    dsimp only
    rw [hfold, if_neg (by simp [hempty]), if_neg hnone, if_neg hnone]
    simp [standing]

/-! ## Disposing -/

/-- Disposing of a scheduler that nothing has happened to but attaching, in any world that it can
be in. -/
theorem dispose_standing (c : Setup σ) (t : σ × List Contact) (held : List HostEvent) :
    ∃ (world : σ) (unhooked : List (HostEvent × Option Text)), unhooked.map Prod.fst = held ∧
      ∀ attached warnings delay request?,
        (standing t attached held warnings delay request?).dispose c.recorded =
          { world := (world, t.2 ++ unhooked.map .unhooked)
            attached, disposed := true
            warnings := (unhooked.filterMap unhookFailure?).reverse ++ warnings
            nextId := request?.toList.length } := by
  obtain ⟨world, unhooked, hevents, hfold⟩ := foldl_unsubscribe_recorded c held t
  refine ⟨world, unhooked, hevents, fun attached warnings delay request? => ?_⟩
  have hended : stopRun (disarm { standing t attached held warnings delay request? with
      disposed := true }) =
      { world := t, attached, disposed := true, held, warnings
        nextId := request?.toList.length, idle := request?.isNone } := by
    cases request? <;> simp [standing, disarm, stopRun]
  rw [dispose, hended]
  dsimp only
  rw [hfold _ rfl]
  cases request? <;> simp [refresh, atRest]

/-! ## Without the record -/

section Plain

variable {m : Machine (σ × List Contact)}

theorem plain_refresh (m : Machine (σ × List Contact)) : m.refresh.plain = m.plain.refresh := by
  unfold refresh
  split
  next hrest =>
    rw [if_pos (show m.plain.atRest = true from hrest)]
    split
    next hidle => rw [if_pos (show m.plain.idle = true from hidle)]
    next hidle =>
      rw [if_neg (show ¬m.plain.idle = true from hidle)]
      rfl
  next hrest =>
    rw [if_neg (show ¬m.plain.atRest = true from hrest)]
    rfl

theorem plain_disarm (m : Machine (σ × List Contact)) : m.disarm.plain = m.plain.disarm := by
  unfold disarm
  cases harmed : m.armed <;> simp [plain, harmed]

theorem plain_stopRun (m : Machine (σ × List Contact)) : m.stopRun.plain = m.plain.stopRun := by
  unfold stopRun
  cases hsignal : m.signal <;> simp [plain, hsignal]

theorem plain_trigger (c : Setup σ) (live : Bool) (asked : Except RequestFault Request)
    (m : Machine (σ × List Contact)) :
    m.plain.trigger c live asked =
      ⟨(m.trigger c.recorded live asked).result,
        (m.trigger c.recorded live asked).state.plain⟩ := by
  rw [trigger.eq_def, trigger.eq_def]
  by_cases hd : m.disposed = true
  · rw [if_pos hd, if_pos (show m.plain.disposed = true from hd)]
  rw [if_neg hd, if_neg (show ¬m.plain.disposed = true from hd)]
  cases asked with
  | error e => rfl
  | ok r =>
      dsimp only
      rw [readSwitches_complaints, readSwitches_complaints, ← plain_disarm]
      dsimp only
      -- the switches are read in the same world, and a loop is there or not
      rw [show c.recorded.flags m.disarm.world = c.flags m.disarm.plain.world from rfl,
        show c.recorded.ownLoop = c.ownLoop from rfl]
      split
      · rw [plain_refresh]
        rfl
      · split
        · rw [plain_refresh]
          rfl
        · rfl

theorem plain_attach (c : Setup σ) (live : Bool) (m : Machine (σ × List Contact)) :
    (m.attach c.recorded live).plain = m.plain.attach c live := by
  have hfold : ∀ (es : List HostEvent) (m : Machine (σ × List Contact)),
      ((es.filterMap fun e => (c.recorded.subscribe? e).map fun hook => (e, hook)).foldl
          (fun m o => m.subscribe o.1 o.2) m).plain =
        (es.filterMap fun e => (c.subscribe? e).map fun hook => (e, hook)).foldl
          (fun m o => m.subscribe o.1 o.2) m.plain ∧
      (es.filterMap fun e => (c.recorded.subscribe? e).map fun hook => (e, hook)).isEmpty =
        (es.filterMap fun e => (c.subscribe? e).map fun hook => (e, hook)).isEmpty := by
    intro es
    induction es with
    | nil => exact fun _ => ⟨rfl, rfl⟩
    | cons e es ih =>
        intro m
        cases hhook : c.subscribe? e with
        | none => simpa [Setup.recorded, hhook] using ih m
        | some hook =>
            have hone : (m.subscribe e (Setup.recording e hook)).plain =
                m.plain.subscribe e hook := by
              rw [subscribe.eq_def, subscribe.eq_def, Setup.recording]
              dsimp only [plain]
              cases (hook m.world.1).1 <;> rfl
            simpa [Setup.recorded, hhook, ← hone] using
              (ih (m.subscribe e (Setup.recording e hook))).1
  unfold attach
  split
  next hdone => rw [if_pos (show (m.plain.attached || m.plain.disposed) = true from hdone)]
  next hnew =>
    rw [if_neg (show ¬(m.plain.attached || m.plain.disposed) = true from hnew)]
    obtain ⟨hsame, hempty⟩ := hfold events { m with attached := true }
    dsimp only
    rw [hempty, show ({ m.plain with attached := true } : Machine σ) =
      plain { m with attached := true } from rfl, ← hsame]
    split
    · rw [plain_trigger]
      generalize trigger c.recorded live _ _ = x
      obtain ⟨_ | _, _⟩ := x <;> rfl
    · rfl

theorem plain_dispose (c : Setup σ) (m : Machine (σ × List Contact)) :
    (m.dispose c.recorded).plain = m.plain.dispose c := by
  have hfold : ∀ (es : List HostEvent) (m : Machine (σ × List Contact)),
      (es.foldl (fun m e => m.unsubscribe c.recorded e) m).plain =
        es.foldl (fun m e => m.unsubscribe c e) m.plain := by
    intro es
    induction es with
    | nil => exact fun _ => rfl
    | cons e es ih =>
        intro m
        have hone : (m.unsubscribe c.recorded e).plain = m.plain.unsubscribe c e := by
          rw [unsubscribe.eq_def, unsubscribe.eq_def, Setup.recorded]
          dsimp only [plain]
          cases (c.unsubscribe e m.world.1).1 <;> rfl
        rw [List.foldl_cons, List.foldl_cons, ih, hone]
  have hended : (stopRun (disarm { m with disposed := true })).plain =
      stopRun (disarm { m.plain with disposed := true }) := by
    rw [plain_stopRun, plain_disarm]
    rfl
  rw [dispose, dispose, ← hended, plain_refresh]
  exact congrArg (fun m => refresh { m with queued := none }) (hfold _ _)

/-- The record changes nothing. -/
theorem plain_run (c : Setup σ) (bs : List Binding) (m : Machine (σ × List Contact)) :
    ((⟨m, []⟩ : Moment _).run c.recorded (bs.map Binding.act)).machine.plain =
      ((⟨m.plain, []⟩ : Moment σ).run c (bs.map Binding.act)).machine := by
  induction bs generalizing m with
  | nil => rfl
  | cons b bs ih =>
      rw [List.map_cons, List.map_cons, Moment.run_cons, Moment.run_cons]
      cases b with
      | attach live =>
          rw [Binding.act, Binding.act, Moment.after, Moment.after, ← plain_attach]
          exact ih _
      | dispose =>
          rw [Binding.act, Binding.act, Moment.after, Moment.after, ← plain_dispose]
          exact ih _

end Plain

end Machine

/-! ## Balance -/

/-- What attaching and disposing in some order come to, if subscribing to the offered events gives
`hooked` and unsubscribing gives `unhooked`. -/
structure Balanced (c : Setup σ) (s : σ) (hooked : List (HostEvent × Subscription))
    (unhooked : List (HostEvent × Option Text)) (bs : List Binding)
    (m : Machine (σ × List Contact)) : Prop where
  /-- All is as it is without a record. -/
  plain : m.plain = ((Moment.start s).run c (bs.map Binding.act)).machine
  /-- The host is called for all the subscriptions if an attach comes before the first dispose, and
  for all the ways to unsubscribe if a dispose comes behind it; for nothing else, and nothing
  twice. -/
  record : m.world.2 =
    if (opening? bs).isSome then
      hooked.map .hooked ++ if .dispose ∈ bs then unhooked.map .unhooked else []
    else []
  /-- No way to unsubscribe is kept when it was used, and none is lost before. -/
  held : m.held =
    if (opening? bs).isSome ∧ .dispose ∉ bs then heldBy hooked else []
  /-- All that fails is warned of, in order: subscriptions, the single request if there is one, and
  what unsubscribes. -/
  warnings : m.warnings.reverse =
    if (opening? bs).isSome then
      hooked.filterMap hookFailure? ++
        (if c.offered = [] then (opening? bs).toList.flatMap (c.singleComplaints s) else []) ++
        if .dispose ∈ bs then unhooked.filterMap unhookFailure? else []
    else []
  /-- The only request is the single one, if the host offers no event and an attach comes first. -/
  timers : m.timers =
    if .dispose ∈ bs then []
    else if c.offered = [] then
      ((opening? bs).bind (c.single? s)).toList.map fun r => ⟨0, c.delay, r⟩
    else []
  nextId : m.nextId =
    if c.offered = [] then ((opening? bs).bind (c.single? s)).toList.length else 0
  runs : m.runs = []

/-- Attaching and disposing are balanced, however often and in whatever order they are called:
each offered event is subscribed to once, and each way to unsubscribe that this gave is used
once. -/
theorem subscriptions_balanced (c : Setup σ) (s : σ) :
    ∃ (hooked : List (HostEvent × Subscription)) (unhooked : List (HostEvent × Option Text)),
      (∀ e, (hooked.map Prod.fst).count e = if (c.subscribe? e).isSome then 1 else 0) ∧
      unhooked.map Prod.fst = heldBy hooked ∧
      ∀ bs : List Binding, Balanced c s hooked unhooked bs
        ((Moment.start (s, [])).run c.recorded (bs.map Binding.act)).machine := by
  obtain ⟨world, hooked, hhooked, hattach⟩ := Machine.attach_start c s
  obtain ⟨world', unhooked, hunhooked, hdispose⟩ :=
    Machine.dispose_standing c (world, hooked.map .hooked) (heldBy hooked)
  refine ⟨hooked, unhooked, hhooked ▸ c.count_offered, hunhooked, fun bs => ?_⟩
  have hplain : ((Moment.start (s, [])).run c.recorded (bs.map Binding.act)).machine.plain =
      ((Moment.start s).run c (bs.map Binding.act)).machine :=
    Machine.plain_run c bs { world := (s, []) }
  have hrun := congrArg Moment.machine (Machine.run_bindings c.recorded (s, []) bs)
  generalize ((Moment.start (s, [])).run c.recorded (bs.map Binding.act)).machine = m
    at hplain hrun ⊢
  cases hopening : opening? bs with
  | none =>
      -- nothing was subscribed to, so that there is nothing to unsubscribe from
      have hstart : ({ world := (s, []) } : Machine (σ × List Contact)) =
          Machine.standing (s, []) false [] [] 0 none := rfl
      obtain ⟨_, unused, hunused, hdispose⟩ := Machine.dispose_standing c (s, []) []
      obtain rfl := List.map_eq_nil_iff.mp hunused
      rw [hopening, Machine.opened, Machine.closed, hstart, hdispose] at hrun
      by_cases hends : .dispose ∈ bs
      · rw [if_pos hends] at hrun
        refine ⟨hplain, ?_, ?_, ?_, ?_, ?_, ?_⟩ <;> simp [hrun, hopening, hends]
      · rw [if_neg hends] at hrun
        refine ⟨hplain, ?_, ?_, ?_, ?_, ?_, ?_⟩ <;>
          simp [hrun, hopening, hends, Machine.standing]
  | some live =>
      rw [hopening, Machine.opened, Machine.closed, hattach, hdispose] at hrun
      by_cases hends : .dispose ∈ bs
      · rw [if_pos hends] at hrun
        by_cases hnone : c.offered = [] <;> refine ⟨hplain, ?_, ?_, ?_, ?_, ?_, ?_⟩ <;>
          simp [hrun, hopening, hends, hnone]
      · rw [if_neg hends] at hrun
        by_cases hnone : c.offered = [] <;> refine ⟨hplain, ?_, ?_, ?_, ?_, ?_, ?_⟩ <;>
          simp [hrun, hopening, hends, hnone, Machine.standing]

end TaskLine
