import TaskLine.Proofs.Formatter.Course
import Mathlib.Data.List.Forall2

/-!
# A run works on a snapshot

A run over a whole file formats the lines that it was given in the beginning. What it writes
behind its pauses is what those lines become, whatever stands in their places by then. So a run
keeps the edits of its pauses exactly if all that it writes is up to date
(`edits_kept_iff_upToDate`), and it loses a line that was edited before its turn
(`edited_line_lost`).
-/

namespace TaskLine

/-! ## Lines that are kept -/

/-- A text stands for a line: it is the line, or the line formatted. -/
def Stands (ov : Overrides) (line text : Text) : Prop := text = line ∨ text = formatIndented ov line

instance (ov : Overrides) (line text : Text) : Decidable (Stands ov line text) :=
  inferInstanceAs (Decidable (_ ∨ _))

/-- Every line is still there, as it was or formatted. -/
def Kept (ov : Overrides) (lines texts : List Text) : Prop := List.Forall₂ (Stands ov) lines texts

/-- What is to be written for a line suits: it is what the line was anyway, or it stands for the
line that is there. -/
def Suits (ov : Overrides) (lines : List Text) (n : Nat) (old new : Text) : Prop :=
  new ≠ old → ∀ line, lines[n]? = some line → Stands ov line new

/-- Texts with a line written anew, unless it is what the line was anyway. -/
def putLine (n : Nat) (old new : Text) (texts : List Text) : List Text :=
  if new = old then texts else texts.set n new

theorem getElem?_putLine_ne {m n : Nat} {old new : Text} {texts : List Text} (h : m ≠ n) :
    (putLine n old new texts)[m]? = texts[m]? := by
  rw [putLine]
  split
  · rfl
  · exact List.getElem?_set_ne h.symm

section Kept

variable {ov : Overrides} {lines texts : List Text} {line text : Text} {n : Nat}

theorem kept_refl (lines : List Text) : Kept ov lines lines :=
  List.forall₂_same.mpr fun _ _ => .inl rfl

theorem kept_iff : Kept ov lines texts ↔ lines.length = texts.length ∧
    ∀ (n : Nat) (line text : Text), lines[n]? = some line → texts[n]? = some text →
      Stands ov line text := by
  rw [Kept, List.forall₂_iff_get]
  refine and_congr_right fun _ => ⟨fun h n line text hline htext => ?_, fun h n hn hn' => ?_⟩
  · obtain ⟨hn, rfl⟩ := List.getElem?_eq_some_iff.mp hline
    obtain ⟨hn', rfl⟩ := List.getElem?_eq_some_iff.mp htext
    exact h n hn hn'
  · exact h n _ _ (List.getElem?_eq_getElem hn) (List.getElem?_eq_getElem hn')

theorem Kept.stands (h : Kept ov lines texts) (hline : lines[n]? = some line)
    (htext : texts[n]? = some text) : Stands ov line text :=
  (kept_iff.mp h).2 n line text hline htext

theorem Kept.set (h : Kept ov lines texts)
    (hstands : ∀ line, lines[n]? = some line → Stands ov line text) :
    Kept ov lines (texts.set n text) := by
  obtain ⟨hlength, hall⟩ := kept_iff.mp h
  refine kept_iff.mpr ⟨by rw [List.length_set, hlength], fun m line text' hline htext => ?_⟩
  rw [List.getElem?_set] at htext
  split at htext
  case isTrue hnm =>
    subst hnm
    obtain ⟨-, htext⟩ := Option.ite_none_right_eq_some.mp htext
    exact Option.some.inj htext ▸ hstands line hline
  case isFalse => exact hall m line text' hline htext

theorem Kept.putLine (h : Kept ov lines texts) {old : Text} (hsuits : Suits ov lines n old text) :
    Kept ov lines (putLine n old text texts) := by
  rw [TaskLine.putLine]
  split
  case isTrue => exact h
  case isFalse hnew => exact h.set (hsuits hnew)

/-- An edit does the same to lines and to what stands for them. -/
theorem Kept.edited (h : Kept ov lines texts) (es : List Edit) :
    Kept ov (edited es lines) (edited es texts) := by
  induction es generalizing lines texts with
  | nil => exact h
  | cons e es ih =>
      refine ih (List.rel_append (List.rel_append ?_ ?_) ?_)
      · exact List.forall₂_take _ h
      · exact kept_refl e.added
      · exact List.forall₂_drop _ h

theorem Kept.asEdited (h : Kept ov lines texts) (edits : Stream' (List Edit)) (k : Nat) :
    Kept ov (asEdited edits k lines) (asEdited edits k texts) := h.edited _

end Kept

/-! ## When a line is written -/

/-- How many pauses come before a line has its turn. -/
def Pace.pausesBefore (p : Pace) (n : Nat) : Nat := (n - 1) / p.stretch

theorem Pace.countP_cons (p : Pace) (i : Nat) (is : List Nat) :
    (i :: is).countP p.pausesAfter = (p.pausesAfter i).toNat + is.countP p.pausesAfter := by
  rw [List.countP_cons, Nat.add_comm]
  cases p.pausesAfter i <;> rfl

theorem Pace.countP_pausesAfter (p : Pace) (n : Nat) :
    (List.range n).countP p.pausesAfter = p.pausesBefore n := by
  induction n with
  | zero => simp [pausesBefore]
  | succ n ih =>
      rw [List.range_succ, List.countP_append, ih]
      cases n with
      | zero => simp [pausesBefore, pausesAfter]
      | succ n => simp [pausesBefore, pausesAfter, Nat.succ_div, Nat.dvd_iff_mod_eq_zero]

/-- Steps that a run gets past without writing anything. -/
def RunStep.idle : RunStep → Bool
  | .appear | .advance _ | .heedStop | .complete => true
  | _ => false

theorem RunStep.passes_of_idle {step : RunStep} (h : step.idle = true) : step.passes = true := by
  cases step with
  | pause => cases h
  | finish changed => cases h
  | _ => rfl

theorem RunStep.written_of_idle {σ : Type} {f : Formatter σ} {step : RunStep} {lines : List Text}
    (h : step.idle = true) : step.written f lines = lines := by
  cases step with
  | writeLine n line => cases h
  | writeAll lines => cases h
  | _ => rfl

namespace FileRun

variable {σ : Type}

/-- What a run writes is up to date. All lines are written at once behind the pauses of the scan,
if formatting changes any; lines that are written one by one wait for further pauses. -/
def UpToDate (f : Formatter σ) (ov : Overrides) (edits : Stream' (List Edit))
    (lines : List Text) : Prop :=
  let scanned := f.pace.pausesBefore lines.length
  if f.host.replaceAll?.isSome then
    lines.map (formatIndented ov) ≠ lines →
      Kept ov (asEdited edits scanned lines) (lines.map (formatIndented ov))
  else if f.host.replaceLine?.isSome then
    ∀ n line, lines[n]? = some line →
      Suits ov (asEdited edits (scanned + f.pace.pausesBefore n) lines) n line
        (formatIndented ov line)
  else True

/-- A plan keeps the edits of its pauses: behind each of them, and in the end, every line is
there as it was edited or formatted. -/
def Keeps (f : Formatter σ) (ov : Overrides) (plan : List RunStep) (edits : Stream' (List Edit))
    (lines texts : List Text) : Prop :=
  ∀ k texts', linesAt f plan edits k texts = some texts' →
    Kept ov (asEdited edits k lines) texts'

variable {f : Formatter σ} {ov : Overrides} {edits : Stream' (List Edit)} {lines texts : List Text}
  {steps rest : List RunStep} {step : RunStep}

/-! ## Step by step -/

theorem keeps_finish {changed : Bool} :
    Keeps f ov (.finish changed :: rest) edits lines texts ↔ Kept ov lines texts := by
  constructor
  · exact fun h => h 0 texts rfl
  · intro h k texts' htexts
    cases k with
    | zero => exact Option.some.inj htexts ▸ h
    | succ k => cases htexts

theorem keeps_pause :
    Keeps f ov (.pause :: rest) edits lines texts ↔
      Kept ov lines texts ∧
        Keeps f ov rest edits.tail (edited edits.head lines) (edited edits.head texts) := by
  constructor
  · intro h
    refine ⟨h 0 texts rfl, fun k texts' htexts => ?_⟩
    rw [← asEdited_succ]
    exact h (k + 1) texts' htexts
  · rintro ⟨hkept, hrest⟩ k texts' htexts
    cases k with
    | zero => exact Option.some.inj htexts ▸ hkept
    | succ k => exact asEdited_succ k ▸ hrest k texts' htexts

theorem keeps_cons (h : step.passes = true) :
    Keeps f ov (step :: rest) edits lines texts ↔
      Keeps f ov rest edits lines (step.written f texts) := by
  simp only [Keeps, linesAt_cons h]

theorem keeps_idle (h : ∀ step ∈ steps, step.idle = true) :
    Keeps f ov (steps ++ rest) edits lines texts ↔ Keeps f ov rest edits lines texts := by
  induction steps with
  | nil => exact Iff.rfl
  | cons step steps ih =>
      have hstep := h step List.mem_cons_self
      rw [List.cons_append, keeps_cons (RunStep.passes_of_idle hstep),
        RunStep.written_of_idle hstep]
      exact ih fun step hmem => h step (List.mem_cons_of_mem _ hmem)

/-- Where a run pauses the edits of the pause are made, to the lines and to what stands for them.
-/
theorem keeps_maybePause {b : Bool} (h : Kept ov lines texts)
    (hidle : ∀ step ∈ steps, step.idle = true) :
    Keeps f ov ((if b then .pause :: steps else []) ++ rest) edits lines texts ↔
      Keeps f ov rest (edits.drop b.toNat) (asEdited edits b.toNat lines)
        (asEdited edits b.toNat texts) := by
  cases b with
  | false => exact Iff.rfl
  | true =>
      rw [if_pos rfl, List.cons_append, keeps_pause, keeps_idle hidle]
      simp only [h, true_and, Bool.toNat_true, asEdited_succ, asEdited_zero]
      exact Iff.rfl

/-! ## The plan -/

/-- Nothing is written while the lines are scanned. -/
theorem keeps_scan (is : List Nat) (h : Kept ov lines texts) :
    Keeps f ov (is.flatMap (scanSteps f.pace) ++ rest) edits lines texts ↔
      Keeps f ov rest (edits.drop (is.countP f.pace.pausesAfter))
        (asEdited edits (is.countP f.pace.pausesAfter) lines)
        (asEdited edits (is.countP f.pace.pausesAfter) texts) := by
  induction is generalizing edits lines texts with
  | nil => exact Iff.rfl
  | cons i is ih =>
      have hidle : ∀ step ∈ if i % f.pace.chunkSize == 0 then [RunStep.appear, .advance i] else [],
          step.idle = true := by
        split <;> simp [RunStep.idle]
      rw [List.flatMap_cons, List.append_assoc, scanSteps, List.append_assoc, keeps_idle hidle,
        keeps_maybePause h (by simp [RunStep.idle]), ih (h.asEdited _ _), asEdited_drop,
        asEdited_drop, Stream'.drop_drop, Pace.countP_cons]

section Write

variable {total i : Nat} {old new : Text}

/-- The first thing that is seen of a run that writes a line: the pause behind the line, or what
follows. -/
theorem linesAt_writeSteps (hline : f.host.replaceLine?.isSome) :
    linesAt f (writeSteps f.pace total i old new ++ rest) edits 0 texts =
      if f.pace.pausesAfter i then some (putLine i old new texts)
      else linesAt f rest edits 0 (putLine i old new texts) := by
  rw [writeSteps, putLine]
  by_cases hnew : new = old <;> by_cases hpause : f.pace.pausesAfter i
  <;> simp [hnew, hpause, linesAt, RunStep.written, hline]

/-- Lines that are written one by one leave those above alone. -/
theorem exists_linesAt_writeLines {pairs : List (Text × Text)} {changed : Bool}
    (hline : f.host.replaceLine?.isSome) (i : Nat) (texts : List Text) :
    ∃ texts', linesAt f (writeLines f.pace total i pairs ++ [.complete, .finish changed]) edits 0
        texts = some texts' ∧
      ∀ m < i, texts'[m]? = texts[m]? := by
  induction pairs generalizing i texts with
  | nil => exact ⟨texts, rfl, fun _ _ => rfl⟩
  | cons pair pairs ih =>
      rw [writeLines, List.append_assoc, linesAt_writeSteps hline]
      split
      · exact ⟨_, rfl, fun m hm => getElem?_putLine_ne (Nat.ne_of_lt hm)⟩
      · obtain ⟨texts', htexts, hall⟩ := ih (i + 1) (putLine i pair.1 pair.2 texts)
        exact ⟨texts', htexts, fun m hm =>
          (hall m (Nat.lt_succ_of_lt hm)).trans (getElem?_putLine_ne (Nat.ne_of_lt hm))⟩

theorem keeps_putLine (hline : f.host.replaceLine?.isSome) :
    Keeps f ov (writeSteps f.pace total i old new ++ rest) edits lines texts ↔
      Keeps f ov ((if f.pace.pausesAfter i then
          [.pause, .heedStop, .appear, .advance (min (i + 1) total)] else []) ++ rest) edits lines
        (putLine i old new texts) := by
  rw [writeSteps, putLine]
  by_cases hnew : new = old
  · rw [if_pos hnew, if_pos hnew, List.nil_append]
  · rw [if_neg hnew, if_neg hnew, List.append_assoc, List.cons_append, keeps_cons rfl,
      RunStep.written, if_pos hline, List.nil_append]

/-- What is written is seen at the next pause or in the end, so it has to suit. -/
theorem Keeps.suits
    (hkeeps : Keeps f ov (writeSteps f.pace total i old new ++ rest) edits lines texts)
    (h : Kept ov lines texts) (hline : f.host.replaceLine?.isSome)
    (hrest : ∃ texts', linesAt f rest edits 0 (putLine i old new texts) = some texts' ∧
      ∀ m < i + 1, texts'[m]? = (putLine i old new texts)[m]?) :
    Suits ov lines i old new := by
  intro hnew line hi
  obtain ⟨texts', htexts, hi'⟩ : ∃ texts',
      linesAt f (writeSteps f.pace total i old new ++ rest) edits 0 texts = some texts' ∧
        texts'[i]? = (putLine i old new texts)[i]? := by
    rw [linesAt_writeSteps hline]
    split
    · exact ⟨_, rfl, rfl⟩
    · obtain ⟨texts', htexts, hall⟩ := hrest
      exact ⟨texts', htexts, hall i (Nat.lt_succ_self i)⟩
  have hlength : i < texts.length := (kept_iff.mp h).1 ▸ (List.getElem?_eq_some_iff.mp hi).1
  rw [putLine, if_neg hnew, List.getElem?_set_self hlength] at hi'
  exact (hkeeps 0 texts' htexts).stands hi hi'

/-- The next line is written, and the edits of its pause follow. -/
theorem keeps_writeSteps (h : Kept ov lines texts) (hline : f.host.replaceLine?.isSome)
    (hrest : ∃ texts', linesAt f rest edits 0 (putLine i old new texts) = some texts' ∧
      ∀ m < i + 1, texts'[m]? = (putLine i old new texts)[m]?) :
    Keeps f ov (writeSteps f.pace total i old new ++ rest) edits lines texts ↔
      Suits ov lines i old new ∧
        Keeps f ov rest (edits.drop (f.pace.pausesAfter i).toNat)
          (asEdited edits (f.pace.pausesAfter i).toNat lines)
          (asEdited edits (f.pace.pausesAfter i).toNat (putLine i old new texts)) := by
  have hidle : ∀ step ∈ [RunStep.heedStop, .appear, .advance (min (i + 1) total)],
      step.idle = true := by
    simp [RunStep.idle]
  constructor
  · intro hkeeps
    have hsuits := hkeeps.suits h hline hrest
    exact ⟨hsuits, (keeps_maybePause (h.putLine hsuits) hidle).mp ((keeps_putLine hline).mp hkeeps)⟩
  · rintro ⟨hsuits, hkeeps⟩
    exact (keeps_putLine hline).mpr ((keeps_maybePause (h.putLine hsuits) hidle).mpr hkeeps)

/-- Lines that are written one by one have to suit when it is their turn. -/
theorem keeps_writeLines {pairs : List (Text × Text)} {changed : Bool}
    (h : Kept ov lines texts) (hline : f.host.replaceLine?.isSome) :
    Keeps f ov (writeLines f.pace total i pairs ++ [.complete, .finish changed]) edits lines texts ↔
      ∀ j old new, pairs[j]? = some (old, new) →
        Suits ov (asEdited edits ((List.range' i j).countP f.pace.pausesAfter) lines) (i + j)
          old new := by
  -- over the lines still to be written; each hands the edits behind its pause on to the next
  induction pairs generalizing i edits lines texts with
  | nil =>
      rw [writeLines, List.nil_append, keeps_cons rfl, keeps_finish]
      exact iff_of_true h fun _ _ _ hpair => by cases hpair
  | cons pair pairs ih =>
      obtain ⟨old, new⟩ := pair
      rw [writeLines, List.append_assoc,
        keeps_writeSteps h hline (exists_linesAt_writeLines hline (i + 1) _),
        ← Nat.and_forall_add_one]
      have hfirst : Suits ov lines i old new ↔ ∀ old' new',
          ((old, new) :: pairs)[0]? = some (old', new') →
            Suits ov (asEdited edits ((List.range' i 0).countP f.pace.pausesAfter) lines) (i + 0)
              old' new' := by
        simp
      rw [← hfirst]
      -- only what suits leaves behind texts that the rest can go on from
      refine and_congr_right fun hsuits => ?_
      rw [ih ((h.putLine hsuits).asEdited _ _)]
      refine forall_congr' fun j => ?_
      have hcount : (List.range' i (j + 1)).countP f.pace.pausesAfter =
          (f.pace.pausesAfter i).toNat + (List.range' (i + 1) j).countP f.pace.pausesAfter := by
        rw [List.range'_succ, Pace.countP_cons]
      rw [asEdited_drop, List.getElem?_cons_succ, hcount, Nat.add_right_comm, Nat.add_assoc]

end Write

/-- A run that changes nothing writes nothing. -/
theorem upToDate_of_unchanged (h : lines.map (formatIndented ov) = lines) :
    UpToDate f ov edits lines := by
  rw [UpToDate]
  split
  · exact fun hnew => absurd h hnew
  · split
    · intro n line hline hchanged
      have hmap : (lines.map (formatIndented ov))[n]? = lines[n]?.map (formatIndented ov) :=
        List.getElem?_map
      rw [h, hline, Option.map_some] at hmap
      exact absurd (Option.some.inj hmap).symm hchanged
    · trivial

/-- The plan of a run over some lines keeps the edits of its pauses exactly if all that it writes
is up to date. -/
theorem keeps_plan :
    Keeps f ov (plan f ov lines) edits lines lines ↔ UpToDate f ov edits lines := by
  -- when the scan is over nothing has been written: the lines are those that were edited
  have hscanned : Kept ov (asEdited edits (f.pace.pausesBefore lines.length) lines)
      (asEdited edits (f.pace.pausesBefore lines.length) lines) := kept_refl _
  rw [plan, keeps_scan _ (kept_refl lines), Pace.countP_pausesAfter, keeps_cons rfl,
    RunStep.written_of_idle rfl]
  by_cases hnew : lines.map (formatIndented ov) = lines
  · rw [if_pos hnew, keeps_cons rfl, RunStep.written_of_idle rfl, keeps_finish]
    exact iff_of_true hscanned (upToDate_of_unchanged hnew)
  · rw [if_neg hnew, applySteps, UpToDate]
    split
    case isTrue hall =>
      have hne : (lines.map (formatIndented ov)).isEmpty = false := by
        cases lines with
        | nil => exact absurd rfl hnew
        | cons line lines => rfl
      rw [keeps_cons rfl, keeps_cons rfl, RunStep.written_of_idle rfl, keeps_finish,
        RunStep.written, if_pos hall, hne, if_neg Bool.false_ne_true]
      exact ⟨fun h _ => h, fun h => h hnew⟩
    case isFalse =>
      split
      case isTrue hline =>
        simp only [keeps_writeLines hscanned hline, asEdited_drop, ← List.range_eq_range',
          Pace.countP_pausesAfter, Nat.zero_add, List.getElem?_zip_eq_some, List.getElem?_map]
        constructor
        · intro h n line hn
          exact h n line _ ⟨hn, by rw [hn]; rfl⟩
        · rintro h n line _ ⟨hn, hformatted⟩
          rw [hn] at hformatted
          exact Option.some.inj hformatted ▸ h n line hn
      case isFalse => exact iff_of_true (keeps_finish.mpr hscanned) trivial

/-! ## A whole run -/

section Run

variable (limits : Desk.Limits) (pace : Pace) (ov : Overrides) (d : Desk)

/-- A run over the lines of a desk ends at once if there is none, and else carries out its plan.
-/
theorem startFile_cases :
    (d.document.lines = [] ∧ (Desk.formatter limits pace).startFile ov
        (d.document.lines.map some) false d = .ended false d) ∨
      ∃ p d', d'.document.lines = d.document.lines ∧
        (Desk.formatter limits pace).startFile ov (d.document.lines.map some) false d =
          proceed (Desk.formatter limits pace) false
            (plan (Desk.formatter limits pace) ov d.document.lines) p d' := by
  have hfilled : filled (d.document.lines.map some) = d.document.lines := by
    simp [filled, Function.comp_def]
  rw [Formatter.startFile, hfilled]
  by_cases hempty : d.document.lines = []
  · exact .inl ⟨hempty, by rw [hempty]; rfl⟩
  · refine .inr ⟨(Progress.begin (Desk.formatter limits pace) d.document.lines.length d).1, _,
      Progress.view_begin (Desk.discreet_formatter limits pace) d.document.lines.length d, ?_⟩
    rw [if_neg (by simpa using hempty)]

theorem lines_amid_startFile (k : Nat) :
    (amid (Desk.formatter limits pace) edits k
        ((Desk.formatter limits pace).startFile ov (d.document.lines.map some) false d)).map
          (·.state.document.lines) =
      linesAt (Desk.formatter limits pace)
        (plan (Desk.formatter limits pace) ov d.document.lines) edits k d.document.lines := by
  obtain ⟨hempty, hstart⟩ | ⟨p, d', hlines, hstart⟩ := startFile_cases limits pace ov d
  · rw [hstart, hempty]
    cases k with
    | zero => exact congrArg some hempty
    | succ k => rfl
  · rw [hstart, lines_amid, hlines]

theorem exists_ended_startFile :
    ∃ k changed d', amid (Desk.formatter limits pace) edits k
      ((Desk.formatter limits pace).startFile ov (d.document.lines.map some) false d) =
        some (.ended changed d') := by
  obtain ⟨-, hstart⟩ | ⟨p, d', -, hstart⟩ := startFile_cases limits pace ov d
  · exact ⟨0, false, d, by rw [hstart]; rfl⟩
  · rw [hstart]
    exact exists_ended

end Run

/-- However a document is edited in the pauses of a run, the run comes to its end. At each pause
and in the end every line is there, as it was edited or formatted, exactly if all that the run
writes is up to date. -/
theorem edits_kept_iff_upToDate (limits : Desk.Limits) (pace : Pace) (ov : Overrides) (d : Desk)
    (edits : Stream' (List Edit)) :
    let f := Desk.formatter limits pace
    let lines := d.document.lines
    let start := f.startFile ov (lines.map some) false d
    (∃ k changed d', amid f edits k start = some (.ended changed d')) ∧
      ((∀ k o, amid f edits k start = some o →
          Kept ov (asEdited edits k lines) o.state.document.lines) ↔
        UpToDate f ov edits lines) := by
  intro f lines start
  refine ⟨exists_ended_startFile limits pace ov d, ?_⟩
  rw [← keeps_plan, Keeps]
  refine forall_congr' fun k => ?_
  rw [← lines_amid_startFile]
  constructor
  · intro h texts' htexts
    obtain ⟨o, ho, rfl⟩ := Option.map_eq_some_iff.mp htexts
    exact h o ho
  · exact fun h o ho => h _ (congrArg _ ho)

end FileRun

namespace Desk

/-- A task and one that formatting changes. -/
def twoTasks : Desk := { document := .ofLines ["- [ ] a".toList, "- [ ]  b".toList] 0 none }

/-- In its first pause the second line is replaced. -/
def secondReplaced : Stream' (List Edit) :=
  Stream'.cons [⟨1, 1, ["- [ ] c".toList]⟩] (Stream'.const [])

/-- With what a formatter has of the document no run loses an edit of its pauses. -/
def LosesNoEdit (limits : Limits) : Prop :=
  ∀ (pace : Pace) (ov : Overrides) (d : Desk) (edits : Stream' (List Edit)) (k : Nat)
    (changed : Bool) (d' : Desk),
    FileRun.amid (formatter limits pace) edits k
      ((formatter limits pace).startFile ov (d.document.lines.map some) false d) =
        some (.ended changed d') →
    Kept ov (asEdited edits k d.document.lines) d'.document.lines

/-- A line that was edited before it had its turn is lost, whether all lines are replaced at once
or one by one. -/
theorem edited_line_lost :
    ¬ LosesNoEdit {} ∧ ¬ LosesNoEdit { lacks := [.replaceAll] } := by
  -- a run over two lines pauses once while they are scanned and once when they have been written
  have hlast : ∀ lacks ∈ [[], [Ability.replaceAll]],
      ((FileRun.amid (formatter { lacks } { pauseEvery := 1 }) secondReplaced
        (if lacks = [] then 1 else 2) ((formatter { lacks } { pauseEvery := 1 }).startFile {}
          (twoTasks.document.lines.map some) false twoTasks)).bind FileRun.Outcome.end?).bind
            (fun d => d.document.lines[1]?) = some "- [ ] b".toList := by
    decide +kernel
  have hc : ∀ k ∈ [1, 2], (asEdited secondReplaced k twoTasks.document.lines)[1]? =
      some "- [ ] c".toList := by
    decide +kernel
  have hlost : ¬ Stands {} "- [ ] c".toList "- [ ] b".toList := by decide +kernel
  have hloses : ∀ lacks ∈ [[], [Ability.replaceAll]], ¬ LosesNoEdit { lacks } := by
    intro lacks hlacks h
    obtain ⟨d', hend, hb⟩ := Option.bind_eq_some_iff.mp (hlast lacks hlacks)
    obtain ⟨o, hended, ho⟩ := Option.bind_eq_some_iff.mp hend
    cases o with
    | ended changed s =>
        obtain rfl : s = d' := Option.some.inj ho
        have hkept := h { pauseEvery := 1 } {} twoTasks secondReplaced _ changed s hended
        refine hlost (hkept.stands (hc _ ?_) hb)
        split <;> simp
    | paused run s => cases ho
    | failed e s => cases ho
  exact ⟨hloses [] (by simp), hloses [.replaceAll] (by simp)⟩

end Desk

end TaskLine
