import TaskLine.Desk
import TaskLine.Formatter.File
import TaskLine.Proofs.Placement
import Mathlib.Data.Stream.Init

/-!
# The course of a run

A run over a whole file pauses now and then, and in its pauses the user may edit the document.
The course of such a run is what it has come to behind each pause, up to its end. Keeping track
of progress leaves the lines alone and a document refuses no write, so the lines in the course
of a run are those that its plan makes, step by step and edit by edit (`lines_amid`).
-/

namespace TaskLine

/-! ## Edits -/

/-- Some lines give way to others. Nothing is removed where lines are inserted, nothing is added
where lines are deleted. -/
structure Edit where
  start : Nat
  removed : Nat
  added : List Text
deriving DecidableEq, Repr

def Edit.apply (e : Edit) (lines : List Text) : List Text :=
  lines.take e.start ++ e.added ++ lines.drop (e.start + e.removed)

/-- Lines after some edits, one after the other. -/
def edited (es : List Edit) (lines : List Text) : List Text :=
  es.foldl (fun lines e => e.apply lines) lines

theorem edited_append (es es' : List Edit) (lines : List Text) :
    edited (es ++ es') lines = edited es' (edited es lines) := List.foldl_append

/-- Lines after the edits of the first pauses. -/
def asEdited (edits : Stream' (List Edit)) (k : Nat) (lines : List Text) : List Text :=
  edited (edits.take k).flatten lines

section AsEdited

variable {edits : Stream' (List Edit)} {lines : List Text}

@[simp] theorem asEdited_zero : asEdited edits 0 lines = lines := rfl

theorem asEdited_succ (k : Nat) :
    asEdited edits (k + 1) lines = asEdited edits.tail k (edited edits.head lines) := by
  simp only [asEdited, Stream'.take_succ, List.flatten_cons, edited_append]

theorem asEdited_drop (s k : Nat) :
    asEdited (edits.drop s) k (asEdited edits s lines) = asEdited edits (s + k) lines := by
  induction s generalizing edits lines with
  | zero => rw [Nat.zero_add]; rfl
  | succ s ih =>
      rw [Nat.succ_add, asEdited_succ, asEdited_succ, ← ih, Stream'.drop_succ]

end AsEdited

/-- The user edits the document of a desk. -/
def Desk.edit (es : List Edit) (d : Desk) : Desk :=
  { d with document := { d.document with lines := edited es d.document.lines } }

/-! ## What progress leaves alone -/

/-- Telling progress changes nothing of what one sees of a state. -/
structure Host.Discreet {σ α : Type} (host : Host σ) (view : σ → α) : Prop where
  start : ∀ tell ∈ host.progressStart?, ∀ title total s, view (tell title total s) = view s
  update : ∀ tell ∈ host.progressUpdate?, ∀ current total s, view (tell current total s) = view s
  finish : ∀ tell ∈ host.progressEnd?, ∀ s, view (tell s) = view s

/-- Neither does reading the clock. -/
structure Formatter.Discreet {σ α : Type} (f : Formatter σ) (view : σ → α) : Prop where
  clock : ∀ s, view (f.clock s).2 = view s
  host : f.host.Discreet view

namespace Host.Discreet

variable {σ τ α : Type} {host : Host σ} {view : σ → α}

theorem without (h : host.Discreet view) (lacks : Ability → Bool) :
    (host.without lacks).Discreet view where
  start tell htell := h.start tell (Option.ite_none_left_eq_some.mp htell).2
  update tell htell := h.update tell (Option.ite_none_left_eq_some.mp htell).2
  finish tell htell := h.finish tell (Option.ite_none_left_eq_some.mp htell).2

theorem bare (h : host.Discreet view) : host.bare.Discreet view := ⟨h.start, h.update, h.finish⟩

/-- A host that is a part of a larger state tells as discreetly there. -/
theorem within (h : host.Discreet view) (get : τ → σ) (put : σ → τ → τ)
    (hput : ∀ s t, get (put s t) = s) :
    (host.within get put).Discreet fun t => view (get t) where
  start tell htell title total t := by
    obtain ⟨tell', htell', rfl⟩ := Option.map_eq_some_iff.mp htell
    rw [hput, h.start tell' htell']
  update tell htell current total t := by
    obtain ⟨tell', htell', rfl⟩ := Option.map_eq_some_iff.mp htell
    rw [hput, h.update tell' htell']
  finish tell htell t := by
    obtain ⟨tell', htell', rfl⟩ := Option.map_eq_some_iff.mp htell
    rw [hput, h.finish tell' htell']

end Host.Discreet

/-- A document but for what it is told about progress and for those who listen to it. -/
def Document.content (d : Document) : Document := { d with progress := [], listeners := {} }

theorem Document.discreet_host : host.Discreet content where
  start := by rintro _ ⟨⟩ _ _ _; rfl
  update := by rintro _ ⟨⟩ _ _ _; rfl
  finish := by rintro _ ⟨⟩ _; rfl

theorem Formatter.Discreet.map {σ α β : Type} {f : Formatter σ} {view : σ → α}
    (h : f.Discreet view) (g : α → β) : f.Discreet fun s => g (view s) where
  clock s := congrArg g (h.clock s)
  host :=
    { start := fun tell htell title total s => congrArg g (h.host.start tell htell title total s)
      update := fun tell htell n total s => congrArg g (h.host.update tell htell n total s)
      finish := fun tell htell s => congrArg g (h.host.finish tell htell s) }

namespace Progress

variable {σ α : Type} {f : Formatter σ} {view : σ → α} {p : Progress}

theorem view_begin (h : f.Discreet view) (total : Nat) (s : σ) :
    view (begin f total s).2 = view s := h.clock s

theorem view_send (h : f.Discreet view) (n : Nat) (t : Binary64) (s : σ) :
    view (send f n t p s).2 = view s := by
  rw [send]
  split
  case h_1 tell htell => exact h.host.update tell htell _ _ _
  case h_2 => rfl

theorem view_appear (h : f.Discreet view) (s : σ) : view (p.appear f s).2 = view s := by
  rw [appear]
  split
  · rfl
  · dsimp only
    split
    · exact h.clock s
    · split
      case h_1 tell htell => exact (h.host.start tell htell _ _ _).trans (h.clock s)
      case h_2 => exact h.clock s

theorem view_advance (h : f.Discreet view) (n : Nat) (s : σ) :
    view (p.advance f n s).2 = view s := by
  rw [advance]
  split
  · dsimp only
    split
    · exact h.clock s
    · exact (view_send h ..).trans (h.clock s)
  · rfl

theorem view_complete (h : f.Discreet view) (s : σ) : view (p.complete f s).2 = view s := by
  rw [complete]
  dsimp only
  split
  · exact (view_send h ..).trans ((h.clock _).trans (view_appear h s))
  · exact view_appear h s

theorem view_close (h : f.Discreet view) (s : σ) : view (p.close f s) = view s := by
  rw [close]
  split
  case isFalse => rfl
  case isTrue =>
    have hsent : view (if p.completed then s
        else (send f p.total (f.clock s).1 p (f.clock s).2).2) = view s := by
      split
      · rfl
      · exact (view_send h ..).trans (h.clock s)
    dsimp only
    split
    case h_1 tell htell => exact (h.host.finish tell htell _).trans hsent
    case h_2 => exact hsent

end Progress

namespace Desk

variable {limits : Limits} {pace : Pace}

theorem formatter_replaceLine? :
    (formatter limits pace).host.replaceLine? =
      if limits.lacks.contains .replaceLine then none
      else some fun n line d => ⟨.ok (), { d with document := d.document.replaceLine n line }⟩ := by
  rw [formatter]
  split <;> simp only [Host.within, Host.without, Host.bare, Document.host]  <;> split <;> rfl

theorem formatter_replaceAll? :
    (formatter limits pace).host.replaceAll? =
      if limits.lacks.contains .replaceAll then none
      else some fun lines d => ⟨.ok (), { d with document := d.document.replaceAll lines }⟩ := by
  rw [formatter]
  split <;> simp only [Host.within, Host.without, Host.bare, Document.host]  <;> split <;> rfl

/-- What a document holds is left alone by the clock and by what is told of progress. -/
theorem discreet_content (limits : Limits) (pace : Pace) :
    (formatter limits pace).Discreet fun d => d.document.content where
  clock _ := rfl
  host := by
    have hoffered := Document.discreet_host.without fun a => limits.lacks.contains a
    have hhost : (if limits.bare then (Document.host.without fun a => limits.lacks.contains a).bare
        else Document.host.without fun a => limits.lacks.contains a).Discreet Document.content := by
      split
      · exact hoffered.bare
      · exact hoffered
    exact hhost.within Desk.document (fun document d => { d with document }) fun _ _ => rfl

theorem discreet_formatter (limits : Limits) (pace : Pace) :
    (formatter limits pace).Discreet fun d => d.document.lines :=
  (discreet_content limits pace).map Document.lines

end Desk

/-! ## Step by step -/

/-- What a step makes of the lines of a host. -/
def RunStep.written {σ : Type} (f : Formatter σ) (lines : List Text) : RunStep → List Text
  | .writeLine n line => if f.host.replaceLine?.isSome then lines.set n line else lines
  | .writeAll new =>
    if f.host.replaceAll?.isSome then if new.isEmpty then [[]] else new else lines
  | _ => lines

/-- Whether a run goes on behind a step without a pause. -/
def RunStep.passes : RunStep → Bool
  | .pause | .finish _ => false
  | _ => true

namespace FileRun

def Outcome.state {σ : Type} : Outcome σ → σ
  | .paused _ s | .ended _ s | .failed _ s => s

/-- The state at the end of a run. -/
def Outcome.end? {σ : Type} : Outcome σ → Option σ
  | .ended _ s => some s
  | .paused .. | .failed .. => none

/-- How far a run has come behind a number of pauses, in each of which the user made the next of
the edits. A run that is over has no more pauses. -/
def amid (f : Formatter Desk) : Stream' (List Edit) → Nat → Outcome Desk → Option (Outcome Desk)
  | _, 0, o => some o
  | edits, k + 1, .paused run d => amid f edits.tail k (run.resume f false (d.edit edits.head))
  | _, _ + 1, .ended .. | _, _ + 1, .failed .. => none

/-- What a plan makes of lines that the user edits in its pauses, behind a number of pauses. -/
def linesAt {σ : Type} (f : Formatter σ) :
    List RunStep → Stream' (List Edit) → Nat → List Text → Option (List Text)
  | [], _, 0, lines | .finish _ :: _, _, 0, lines | .pause :: _, _, 0, lines => some lines
  | [], _, _ + 1, _ | .finish _ :: _, _, _ + 1, _ => none
  | .pause :: rest, edits, k + 1, lines => linesAt f rest edits.tail k (edited edits.head lines)
  | step :: rest, edits, k, lines => linesAt f rest edits k (step.written f lines)

theorem linesAt_cons {σ : Type} {f : Formatter σ} {step : RunStep} {rest : List RunStep}
    {edits : Stream' (List Edit)} {k : Nat} {lines : List Text} (h : step.passes = true) :
    linesAt f (step :: rest) edits k lines = linesAt f rest edits k (step.written f lines) := by
  cases step with
  | pause => cases h
  | finish changed => cases h
  | _ => rfl

variable {limits : Desk.Limits} {pace : Pace} {step : RunStep} {rest steps : List RunStep}
  {p : Progress} {d : Desk} {edits : Stream' (List Edit)} {k : Nat}

/-- A run on a desk gets past every step but a pause and its end. -/
theorem exists_proceed (limits : Desk.Limits) (pace : Pace) (rest : List RunStep) (p : Progress)
    (d : Desk) (h : step.passes = true) :
    ∃ p' d', d'.document.lines = step.written (Desk.formatter limits pace) d.document.lines ∧
      proceed (Desk.formatter limits pace) false (step :: rest) p d =
        proceed (Desk.formatter limits pace) false rest p' d' := by
  have hdiscreet := Desk.discreet_formatter limits pace
  cases step with
  | appear => exact ⟨_, _, Progress.view_appear hdiscreet d, rfl⟩
  | advance n => exact ⟨_, _, Progress.view_advance hdiscreet n d, rfl⟩
  | complete => exact ⟨_, _, Progress.view_complete hdiscreet d, rfl⟩
  | heedStop => exact ⟨p, d, rfl, rfl⟩
  | writeLine n line =>
      simp only [proceed, RunStep.written, Desk.formatter_replaceLine?]
      split
      · exact ⟨p, d, rfl, rfl⟩
      · exact ⟨p, _, Document.lines_replaceLine n line d.document, rfl⟩
  | writeAll new =>
      simp only [proceed, RunStep.written, Desk.formatter_replaceAll?]
      split
      · exact ⟨p, d, rfl, rfl⟩
      · exact ⟨p, _, Document.lines_replaceAll new d.document, rfl⟩
  | pause => cases h
  | finish changed => cases h

/-- The lines in the course of a run on a desk are those that its plan makes. -/
theorem lines_amid :
    (amid (Desk.formatter limits pace) edits k
        (proceed (Desk.formatter limits pace) false steps p d)).map (·.state.document.lines) =
      linesAt (Desk.formatter limits pace) steps edits k d.document.lines := by
  have hdiscreet := Desk.discreet_formatter limits pace
  -- a pause takes one of the `k` pauses and the next of the edits, every other step neither
  induction steps generalizing edits k p d with
  | nil =>
      cases k with
      | zero => exact congrArg some (Progress.view_close hdiscreet d)
      | succ k => rfl
  | cons step rest ih =>
      by_cases hpasses : step.passes
      · obtain ⟨p', d', hlines, hproceed⟩ := exists_proceed limits pace rest p d hpasses
        rw [hproceed, linesAt_cons hpasses, ← hlines, ih]
      · cases step with
        | pause =>
            cases k with
            | zero => rfl
            | succ k => exact ih
        | finish changed =>
            cases k with
            | zero => exact congrArg some (Progress.view_close hdiscreet d)
            | succ k => rfl
        | _ => cases hpasses rfl

/-- A run on a desk comes to an end. -/
theorem exists_ended :
    ∃ k changed d', amid (Desk.formatter limits pace) edits k
      (proceed (Desk.formatter limits pace) false steps p d) = some (.ended changed d') := by
  induction steps generalizing edits p d with
  | nil => exact ⟨0, _, _, rfl⟩
  | cons step rest ih =>
      by_cases hpasses : step.passes
      · obtain ⟨p', d', -, hproceed⟩ := exists_proceed limits pace rest p d hpasses
        rw [hproceed]
        exact ih
      · cases step with
        | pause =>
            obtain ⟨k, changed, d', hk⟩ :
                ∃ k changed d', amid (Desk.formatter limits pace) edits.tail k
                  (proceed _ false rest p (d.edit edits.head)) = some (.ended changed d') := ih
            exact ⟨k + 1, changed, d', hk⟩
        | finish changed => exact ⟨0, _, _, rfl⟩
        | _ => cases hpasses rfl

end FileRun

end TaskLine
