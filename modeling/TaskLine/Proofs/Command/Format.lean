import TaskLine.Command.Run
import TaskLine.Proofs.Formatter.Agreement
import TaskLine.Proofs.Reformatting
import TaskLine.Proofs.Replacing

/-!
# Formatting a file

A file that is formatted holds its lines afterwards, each formatted by itself, with the line break
and the end that it had (`Surroundings.formatFile_faithful`). Whether the file is only looked at or
written over, the answer tells the numbers of the lines that differ from what they are when they are
formatted (`mem_changedLines`), and it is these that decide: the file stays as it is exactly if
there are none. The lines are those that a run over a whole document leaves, with no pace and no
clock to it (`formatted_eq`).
-/

namespace TaskLine

/-- The command is over with a code, and has printed an envelope with a payload. -/
def CommandResult.Answers (r : CommandResult) (code : Nat) (payload : List (Text × Json)) : Prop :=
  ∃ e : Envelope, e.payload = .object payload ∧ r.ending = .exit code (.text e.text)

namespace Surroundings

variable {s : Surroundings} {path text : Text} {p : Path}

/-! ## Lines that differ -/

theorem mem_changedLines (lines : List Text) (f : Text → Text) (n : Nat) :
    n ∈ changedLines lines (lines.map f) ↔
      ∃ i line, n = i + 1 ∧ lines[i]? = some line ∧ f line ≠ line := by
  simp only [changedLines, List.mem_map, List.mem_filter, bne_iff_ne]
  constructor
  · rintro ⟨⟨⟨old, new⟩, i⟩, ⟨hmem, hdiffers⟩, rfl⟩
    obtain ⟨hold, hnew⟩ := List.getElem?_zip_eq_some.mp (List.mem_zipIdx_iff_getElem?.mp hmem)
    rw [List.getElem?_map, hold] at hnew
    exact ⟨i, old, rfl, hold, Option.some.inj hnew ▸ Ne.symm hdiffers⟩
  · rintro ⟨i, line, rfl, hline, hdiffers⟩
    refine ⟨((line, f line), i), ⟨List.mem_zipIdx_iff_getElem?.mpr ?_, Ne.symm hdiffers⟩, rfl⟩
    exact List.getElem?_zip_eq_some.mpr ⟨hline, by rw [List.getElem?_map, hline]; rfl⟩

theorem pairwise_changedLines (before after : List Text) :
    (changedLines before after).Pairwise (· < ·) := by
  have hnumbered : (before.zip after).zipIdx.Pairwise fun a b => a.2 < b.2 := by
    rw [← List.pairwise_map, List.zipIdx_map_snd]
    exact List.pairwise_lt_range'
  exact List.pairwise_map.mpr ((hnumbered.filter _).imp Nat.succ_lt_succ)

/-! ## The lines of a run -/

theorem worksOn_formatter : formatter.WorksOn id where
  discreet := ⟨fun _ => rfl, Document.discreet_host⟩
  line := by
    rintro _ ⟨⟩ n line d
    exact ⟨_, rfl, rfl⟩
  all := by
    rintro _ ⟨⟩ lines d
    exact ⟨_, rfl, rfl⟩

/-- Every line of a file is formatted by itself. -/
theorem formatted_eq (lines : List Text) :
    formatted lines =
      (decide (lines.map (formatIndented {}) ≠ lines), lines.map (formatIndented {})) := by
  rw [formatted]
  by_cases hempty : lines = []
  · rw [hempty]
    rfl
  rw [if_neg (by simpa using hempty)]
  have hdocument : (Document.ofLines lines 0 none).lines = lines := if_neg (by simpa using hempty)
  obtain ⟨steps, changed, hplan, hfinish, hchanged, -, hwritten⟩ :=
    FileRun.exists_plan_eq (f := formatter) (.inl rfl) {} lines
  have hbegin := Progress.view_begin worksOn_formatter.discreet lines.length (.ofLines lines 0 none)
  obtain ⟨hresult, hcontent⟩ := FileRun.carryThrough_unstopped (i := 0)
    (p := (Progress.begin formatter lines.length (.ofLines lines 0 none)).1)
    (s := (Progress.begin formatter lines.length (.ofLines lines 0 none)).2) worksOn_formatter
    changed hfinish (Nat.le_refl _)
  rw [hbegin, ← FileRun.content_performed] at hcontent
  have hlines := congrArg Document.lines hcontent
  simp only [Document.content, id_eq, FileRun.lines_performed, hdocument, hwritten] at hlines
  rw [Formatter.formatFile_none, FileRun.startFile_eq, if_neg (by simpa using hempty), hplan]
  dsimp only
  rw [hresult, hlines]
  cases changed with
  | true => rw [decide_eq_true (hchanged.mp rfl)]
  | false =>
      have hsame : lines.map (formatIndented {}) = lines :=
        not_not.mp (mt hchanged.mpr Bool.false_ne_true)
      rw [hsame, decide_eq_false (not_not.mpr rfl)]

/-! ## The command -/

/-- At a path there is a file with a text, and room to write over it. -/
structure Holds (s : Surroundings) (path : Text) (p : Path) (text : Text) : Prop where
  path : (Path.ofText path).expand s.homes = .ok p
  files : s.files.Sound
  file : s.files.find p = .file (.text text)
  room : s.files.HasRoom p

theorem Holds.load_eq (h : s.Holds path p text) (command : Text)
    (next : Path → Markdown → CommandResult) :
    s.load command path next = next p (.ofText text) := by
  simp only [load, withPath, h.path, Files.hasFile, Files.read, h.file]

/-- What is reported of a file of which the lines with some numbers differ. -/
def formatReport (p : Path) (m : Markdown) (numbers : List Nat) : List (Text × Json) :=
  [member "path" (.text p.toText), member "lines" (.int m.lines.length),
    member "changed_lines" (.list (numbers.map fun n => .int (Int.ofNat n)))]

/-- A file is looked at, or written over. The answer tells the numbers of its lines that differ from
what they are when they are formatted. Looking at the file writes nothing, and ends with 1 if there
are such lines. Writing over it leaves the formatted lines, one for each and in their order, with
the line break and the end of the text, and the text itself exactly if no line differs. -/
theorem formatFile_faithful (h : s.Holds path p text) :
    let m := Markdown.ofText text
    let differs := ∃ line ∈ m.lines, formatIndented {} line ≠ line
    let check := s.formatFile path .check
    let done := s.formatFile path .replace
    ∃ numbers written,
      (numbers.Pairwise (· < ·) ∧ ∀ n, n ∈ numbers ↔
        ∃ i line, n = i + 1 ∧ m.lines[i]? = some line ∧ formatIndented {} line ≠ line) ∧
      check.Answers (if differs then 1 else 0)
        (formatReport p m numbers ++ [member "mode" (.text "check".toList)]) ∧
      check.files = s.files ∧
      done.Answers 0 (formatReport p m numbers) ∧
      done.files.find p = .file (.text written) ∧
      Markdown.ofText written = { m with lines := m.lines.map (formatIndented {}) } ∧
      (written ≠ text ↔ differs) ∧ (done.files ≠ s.files ↔ differs) := by
  intro m differs check done
  have hreports := And.intro (pairwise_changedLines m.lines (m.lines.map (formatIndented {})))
    (mem_changedLines m.lines (formatIndented {}))
  have hread : Markdown.ofText m.formatted.text = m.formatted :=
    Markdown.ofText_text_formatted text
  obtain ⟨files, hreplace, hfind⟩ := h.files.find_replace h.file h.room m.formatted.text
  have hsame : m.lines.map (formatIndented {}) = m.lines ↔ ¬differs :=
    FileRun.map_eq_self_iff.trans (by simp [differs])
  simp only [check, done, formatFile, h.load_eq, formatted_eq]
  by_cases hdiffers : differs
  · have hnew : m.lines.map (formatIndented {}) ≠ m.lines := fun heq => hsame.mp heq hdiffers
    -- what is read of the file has other lines than what was read before
    have hwritten : m.formatted.text ≠ text := fun heq =>
      hnew (congrArg Markdown.lines ((heq ▸ hread).symm : m.formatted = m))
    have hfiles : files ≠ s.files := fun heq => by
      rw [heq, h.file] at hfind
      exact hwritten (Content.text.inj (Found.file.inj hfind)).symm
    have hstore : s.store p m.formatted = fun next => next { s with files } := by
      funext next
      rw [store, hreplace]
    refine ⟨_, m.formatted.text, hreports, ?_⟩
    rw [if_pos hdiffers, if_pos (decide_eq_true hnew), if_pos (decide_eq_true hnew),
      show s.store p { m with lines := m.lines.map (formatIndented {}) } = _ from hstore]
    exact ⟨⟨_, rfl, rfl⟩, rfl, ⟨_, rfl, rfl⟩, hfind, hread, iff_of_true hwritten hdiffers,
      iff_of_true hfiles hdiffers⟩
  · have hold := hsame.mpr hdiffers
    refine ⟨_, text, hreports, ?_⟩
    rw [if_neg hdiffers, if_neg (by simpa using hold), if_neg (by simpa using hold)]
    refine ⟨⟨_, rfl, rfl⟩, rfl, ⟨_, rfl, rfl⟩, h.file, ?_, iff_of_false (not_not.mpr rfl) hdiffers,
      iff_of_false (not_not.mpr rfl) hdiffers⟩
    rw [hold]

/-- A directory with one file, and in that file a heading and a task with a space too many, with
more than one kind of line break. -/
def journal : Surroundings where
  files := { files := [(["journal.md".toList], .text "# Today\r\n- [ ]  Call Ann\r\n\r".toList)] }
  configPath := .ok (.ofText "config.yaml".toList)
  instanceId := "tpl-0123456789".toList
  timestamp := "2024-05-01T12:00:00".toList

theorem holds_journal : journal.Holds "journal.md".toList (.ofText "journal.md".toList)
    "# Today\r\n- [ ]  Call Ann\r\n\r".toList where
  path :=
    show (Path.ofText "journal.md".toList).expand [] = .ok (.ofText "journal.md".toList) by
      decide +kernel
  files := by decide +kernel
  file := by decide +kernel
  room := by decide +kernel

/-- The second of three lines differs. -/
theorem formatFile_journal :
    let m := Markdown.ofText "# Today\r\n- [ ]  Call Ann\r\n\r".toList
    ∃ numbers written, (∀ n, n ∈ numbers ↔ n = 2) ∧
      (journal.formatFile "journal.md".toList .check).Answers 1
        (formatReport (.ofText "journal.md".toList) m numbers ++
          [member "mode" (.text "check".toList)]) ∧
      (journal.formatFile "journal.md".toList .replace).files.find (.ofText "journal.md".toList) =
        .file (.text written) ∧
      Markdown.ofText written =
        ⟨["# Today".toList, "- [ ] Call Ann".toList, []], ['\r', '\n'], true⟩ := by
  intro m
  have hlines : m.lines = ["# Today".toList, "- [ ]  Call Ann".toList, []] := by decide +kernel
  have hdiffers : ∃ line ∈ m.lines, formatIndented {} line ≠ line :=
    ⟨"- [ ]  Call Ann".toList, by simp [hlines], by decide +kernel⟩
  obtain ⟨numbers, written, ⟨-, hnumbers⟩, hcheck, -, -, hfind, hread, -⟩ :=
    formatFile_faithful holds_journal
  rw [if_pos hdiffers] at hcheck
  refine ⟨numbers, written, fun n => (hnumbers n).trans ?_, hcheck, hfind, hread.trans ?_⟩
  · constructor
    · rintro ⟨i, line, rfl, hline, hnew⟩
      rw [hlines] at hline
      rcases i with _ | _ | _ | i
      · obtain rfl := Option.some.inj hline
        exact absurd (by decide +kernel) hnew
      · rfl
      · obtain rfl := Option.some.inj hline
        exact absurd (by decide +kernel) hnew
      · cases hline
    · rintro rfl
      exact ⟨1, "- [ ]  Call Ann".toList, rfl, congrArg (·[1]?) hlines, by decide +kernel⟩
  · decide +kernel

end Surroundings

end TaskLine
