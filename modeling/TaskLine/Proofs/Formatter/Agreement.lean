import TaskLine.Proofs.Formatter.Snapshot
import TaskLine.Proofs.Formatter.Writing

/-!
# All ways of formatting a document agree

A document can be formatted by a run over the whole of it, which replaces all lines at once or the
changed ones one by one, or by formatting one line after the other. Whatever the pace, the clock
and the order of the lines are, each of these leaves every line formatted
(`formatFile_agrees`). A run says whether it changed anything, and writes nothing if it did not.
-/

namespace TaskLine

/-- Format the lines of some numbers, one after the other. -/
def Formatter.formatEach {σ : Type} (f : Formatter σ) (ov : Overrides) :
    List Nat → σ → Attempt RunFault σ Unit
  | [], s => .done s
  | n :: ns, s => (f.formatLineAt ov n s).andThen fun _ s => f.formatEach ov ns s

/-! ## Line by line -/

/-- In a host that keeps its lines in a list, a line that is formatted by itself is the only one
that changes. -/
theorem Formatter.exists_formatLineAt {σ : Type} {f : Formatter σ} (lines : σ → List Text)
    {lineAt : Int → σ → Option Text} {replace : Int → Text → σ → Attempt RunFault σ Unit}
    (hread : f.host.lineAt? = some lineAt) (hwrite : f.host.replaceLine? = some replace)
    (hlineAt : ∀ (n : Nat) s, lineAt n s = (lines s)[n]?)
    (hreplace : ∀ (n : Nat) line s, (replace n line s).result = .ok () ∧
      lines (replace n line s).state = (lines s).set n line) (ov : Overrides) (n : Nat) (s : σ) :
    ∃ written s', f.formatLineAt ov n s = ⟨.ok written, s'⟩ ∧
      lines s' = (lines s).modify n (formatIndented ov) := by
  rw [formatLineAt, hread]
  dsimp only
  rw [hlineAt]
  cases hline : (lines s)[n]? with
  | none =>
      refine ⟨false, s, rfl, (List.modify_eq_self ?_).symm⟩
      exact List.getElem?_eq_none_iff.mp hline
  | some line =>
      rw [List.modify_eq_set, hline, Option.getD_some]
      dsimp only
      unfold putBack
      by_cases hnew : formatIndented ov line = line
      · refine ⟨false, s, if_pos hnew, ?_⟩
        obtain ⟨hn, rfl⟩ := List.getElem?_eq_some_iff.mp hline
        rw [hnew]
        exact (List.set_getElem_self hn).symm
      · rw [if_neg hnew, hwrite]
        obtain ⟨hresult, hlines⟩ := hreplace n (formatIndented ov line) s
        refine ⟨true, _, ?_, hlines⟩
        dsimp only
        rw [hresult]
        rfl

namespace Desk

variable {limits : Limits} {pace : Pace} {ov : Overrides} {n : Nat} {d : Desk}

theorem formatter_lineAt? :
    (formatter limits pace).host.lineAt? =
      if limits.lacks.contains .lineAt then none else some fun n d => d.document.lineAt n := by
  rw [formatter]
  split <;> simp only [Host.within, Host.without, Host.bare, Document.host] <;> split <;> rfl

theorem exists_formatLineAt (hread : .lineAt ∉ limits.lacks) (hwrite : .replaceLine ∉ limits.lacks)
    (pace : Pace) (ov : Overrides) (n : Nat) (d : Desk) :
    ∃ written d', (formatter limits pace).formatLineAt ov n d = ⟨.ok written, d'⟩ ∧
      d'.document.lines = d.document.lines.modify n (formatIndented ov) :=
  Formatter.exists_formatLineAt (fun d => d.document.lines)
    (formatter_lineAt?.trans (if_neg (by simpa using hread)))
    (formatter_replaceLine?.trans (if_neg (by simpa using hwrite))) (fun _ _ => rfl)
    (fun n line d => ⟨rfl, Document.lines_replaceLine n line d.document⟩) ov n d

/-- Lines that are formatted one after the other are formatted each in its place. -/
theorem formatEach_getElem? (hread : .lineAt ∉ limits.lacks)
    (hwrite : .replaceLine ∉ limits.lacks) {order : List Nat} (hnodup : order.Nodup) (pace : Pace)
    (ov : Overrides) (d : Desk) :
    let r := (formatter limits pace).formatEach ov order d
    r.result = .ok () ∧ ∀ m, r.state.document.lines[m]? =
      if m ∈ order then (d.document.lines[m]?).map (formatIndented ov)
      else d.document.lines[m]? := by
  induction order generalizing d with
  | nil => exact ⟨rfl, fun m => by rw [if_neg List.not_mem_nil]; rfl⟩
  | cons n order ih =>
      obtain ⟨hn, hnodup⟩ := List.nodup_cons.mp hnodup
      obtain ⟨written, d', hformat, hlines⟩ := exists_formatLineAt hread hwrite pace ov n d
      obtain ⟨hresult, hrest⟩ := ih hnodup d'
      have hstep : (formatter limits pace).formatEach ov (n :: order) d =
          (formatter limits pace).formatEach ov order d' := by
        rw [Formatter.formatEach, hformat]
        rfl
      rw [hstep]
      refine ⟨hresult, fun m => ?_⟩
      rw [hrest, hlines, List.getElem?_modify]
      -- the line that was formatted first is not formatted again
      by_cases hm : n = m
      · subst hm
        simp [hn]
      · simp [hm, Ne.symm hm]

end Desk

/-! ## In a run -/

namespace FileRun

variable {σ : Type} {f : Formatter σ} {ov : Overrides} {lines : List Text}

/-- A plan writes the formatted lines, or nothing at all if they are formatted already, and it ends
with what it has to report. -/
theorem exists_plan_eq (hwrites : f.host.replaceAll?.isSome ∨ f.host.replaceLine?.isSome)
    (ov : Overrides) (lines : List Text) :
    ∃ steps changed, plan f ov lines = steps ++ [.finish changed] ∧
      (∀ changed, .finish changed ∉ steps) ∧
      (changed = true ↔ lines.map (formatIndented ov) ≠ lines) ∧
      (changed = false → ∀ step ∈ steps, step.quiet = true) ∧
      writtenBy f steps lines = lines.map (formatIndented ov) := by
  obtain ⟨steps, changed, hclosing, hplan⟩ := exists_closing f ov lines
  have hquiet := quiet_scan f.pace lines
  refine ⟨_, changed, hplan, hclosing.finish_notMem f.pace lines, ?_⟩
  rw [writtenBy_append, writtenBy_of_quiet hquiet]
  cases hclosing with
  | unchanged hnew =>
      refine ⟨by simp [hnew], fun _ => List.forall_mem_append.mpr ⟨hquiet, ?_⟩, hnew.symm⟩
      simp [RunStep.quiet]
  | atOnce hnew hall =>
      have hsome : lines ≠ [] := by
        rintro rfl
        exact hnew rfl
      exact ⟨by simp [hnew], by simp, by simp [writtenBy, RunStep.written, hall, hsome]⟩
  | oneByOne hnew hall hline =>
      have hlines : writtenBy f (writeLines f.pace lines.length 0
          (lines.zip (lines.map (formatIndented ov)))) lines = lines.map (formatIndented ov) :=
        written_writeLines [] hline (by rw [List.length_map])
      refine ⟨by simp [hnew], by simp, ?_⟩
      rw [writtenBy_append, hlines]
      rfl
  | unwritten hall hline => exact absurd hwrites (not_or.mpr ⟨hall, hline⟩)

end FileRun

namespace Desk

/-- A run over the lines of a document that nobody stops or edits meanwhile formats all of them,
whether it may replace all lines at once or only one by one. It says whether that changed any; if
it changed none it does not ask for a write. Formatting the lines each by itself, in whichever
order, leaves the same lines. -/
theorem formatFile_agrees (limits : Limits) (pace : Pace) (ov : Overrides) (d : Desk)
    (hwrites : .replaceAll ∉ limits.lacks ∨ .replaceLine ∉ limits.lacks) :
    let f := formatter limits pace
    let lines := d.document.lines
    let run := f.formatFile ov (lines.map some) none d
    (∃ changed, run.result = .ok changed ∧
        (changed = true ↔ ∃ line ∈ lines, formatIndented ov line ≠ line) ∧
        (changed = false → run.state.document.content = d.document.content)) ∧
      run.state.document.lines = lines.map (formatIndented ov) ∧
      (.lineAt ∉ limits.lacks → .replaceLine ∉ limits.lacks →
        ∀ order : List Nat, order.Perm (List.range lines.length) →
          (f.formatEach ov order d).result = .ok () ∧
            (f.formatEach ov order d).state.document.lines = run.state.document.lines) := by
  intro f lines run
  have hoffered : f.host.replaceAll?.isSome ∨ f.host.replaceLine?.isSome :=
    hwrites.imp FileRun.isSome_replaceAll?.mpr FileRun.isSome_replaceLine?.mpr
  obtain ⟨steps, changed, hplan, hfinish, hchanged, hquiet, hwritten⟩ :=
    FileRun.exists_plan_eq hoffered ov lines
  have hrun : run.result = .ok changed ∧
      run.state.document.content = FileRun.performed f steps d.document.content := by
    have hcontent := Progress.view_begin (discreet_content limits pace) lines.length d
    rw [show run = _ from Formatter.formatFile_none f ov _ d, FileRun.startFile_eq]
    split
    case isTrue hempty =>
      have hunchanged : changed = false := by
        rw [← Bool.not_eq_true, hchanged, ne_eq, not_not, List.isEmpty_iff.mp hempty, List.map_nil]
      rw [hunchanged, FileRun.performed_of_quiet (hquiet hunchanged)]
      exact ⟨rfl, rfl⟩
    case isFalse =>
      rw [hplan, ← hcontent]
      exact FileRun.carryThrough_performed hfinish (Nat.le_refl _)
  have hlines : run.state.document.lines = lines.map (formatIndented ov) := by
    have hperformed := congrArg Document.lines hrun.2
    rw [FileRun.lines_performed] at hperformed
    exact hperformed.trans hwritten
  refine ⟨⟨changed, hrun.1, ?_, fun hchanged => ?_⟩, ?_, ?_⟩
  · rw [hchanged, ne_eq, FileRun.map_eq_self_iff]
    simp
  · rw [hrun.2, FileRun.performed_of_quiet (hquiet hchanged)]
  · exact hlines
  · intro hread hwrite order horder
    obtain ⟨hresult, heach⟩ :=
      formatEach_getElem? hread hwrite (horder.nodup_iff.mpr List.nodup_range) pace ov d
    refine ⟨hresult, ?_⟩
    rw [hlines]
    refine List.ext_getElem? fun m => ?_
    rw [heach, List.getElem?_map]
    simp only [horder.mem_iff, List.mem_range]
    split
    · rfl
    next hm => rw [List.getElem?_eq_none (Nat.le_of_not_lt hm), Option.map_none]

/-- Two tasks, the second of which has a space too many, written one by one. -/
theorem formatFile_agrees_twoTasks :
    let f := formatter { lacks := [.replaceAll] } {}
    let run := f.formatFile {} (twoTasks.document.lines.map some) none twoTasks
    run.result = .ok true ∧
      run.state.document.lines = ["- [ ] a".toList, "- [ ] b".toList] ∧
      (f.formatEach {} [1, 0] twoTasks).state.document.lines =
        ["- [ ] a".toList, "- [ ] b".toList] := by
  intro f run
  have hformatted : twoTasks.document.lines.map (formatIndented {}) =
      ["- [ ] a".toList, "- [ ] b".toList] := by
    decide +kernel
  obtain ⟨⟨changed, hresult, hchanged, -⟩, hlines, heach⟩ :=
    formatFile_agrees { lacks := [.replaceAll] } {} {} twoTasks (.inr (by decide))
  have hspace : "- [ ]  b".toList ∈ twoTasks.document.lines := by decide +kernel
  have htrue : changed = true := hchanged.mpr ⟨"- [ ]  b".toList, hspace, by decide +kernel⟩
  have heach := (heach (by decide) (by decide) [1, 0] (by decide)).2
  exact ⟨htrue ▸ hresult, hlines.trans hformatted, heach.trans (hlines.trans hformatted)⟩

end Desk

end TaskLine
