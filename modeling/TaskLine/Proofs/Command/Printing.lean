import TaskLine.Proofs.Command.Format
import TaskLine.Proofs.Rereading

/-!
# Printing a formatted file

A formatted file that is printed is always written anew, with one kind of line break. The file
itself is written anew only if a line of it differs, and otherwise keeps the line breaks that it
had. So the two can disagree, but only on a file in which no line differs, and exactly if a line
break of it is not the dominant one (`Surroundings.printed_eq_written_iff`).
-/

namespace TaskLine

/-! ## The breaks of a text -/

namespace Markdown

variable {nl s : Text}

/-- The line breaks of a text in their order: CR LF, LF and CR, the longest first. -/
def breaks : Text → List Text
  | '\r' :: '\n' :: cs => ['\r', '\n'] :: breaks cs
  | c :: cs => if c = '\n' ∨ c = '\r' then [c] :: breaks cs else breaks cs
  | [] => []

/-- A text keeps its line breaks only if they are the ones that are put in their places. -/
theorem rebroken_eq_self_iff (hnl : IsBreak nl) :
    rebroken nl s = s ↔ ∀ b ∈ breaks s, b = nl := by
  induction s using breaks.induct with
  | case1 cs ih =>
      rw [rebroken, breaks, List.forall_mem_cons, ← ih]
      rcases hnl with rfl | rfl <;> simp
  | case2 c cs hpair hc ih =>
      rw [rebroken, breaks, if_pos hc, if_pos hc, List.forall_mem_cons, ← ih]
      · rcases hnl with rfl | rfl
        · simp [eq_comm]
        · -- a pair does not take the place of a single character
          refine iff_of_false (fun h => ?_) (fun h => by cases h.1)
          obtain ⟨hreturn, hrest⟩ := List.cons.inj h
          exact hpair _ hreturn.symm hrest.symm
      · exact hpair
      · exact hpair
  | case3 c cs hpair hc ih =>
      rw [rebroken, breaks, if_neg hc, if_neg hc, ← ih, List.cons.injEq, and_iff_right rfl]
      · exact hpair
      · exact hpair
  | case4 => exact iff_of_true rfl (List.forall_mem_nil _)

theorem isBreak_dominantBreak (s : Text) : IsBreak (dominantBreak s) := by
  unfold dominantBreak
  split
  · exact .inr rfl
  · exact .inl rfl

/-- A text is written as it was read exactly if all of its line breaks are the dominant one. -/
theorem text_ofText_eq_self_iff (s : Text) :
    (ofText s).text = s ↔ ∀ b ∈ breaks s, b = dominantBreak s := by
  rw [text_ofText]
  exact rebroken_eq_self_iff (isBreak_dominantBreak s)

end Markdown

/-! ## Printing and writing -/

namespace Surroundings

variable {s : Surroundings} {path text : Text} {p : Path}

/-- What is printed is the formatted document, whether a line of it differs or not. -/
theorem formatFile_print (h : s.Holds path p text) :
    s.formatFile path .print =
      ⟨.exit 0 (.text (Markdown.ofText text).formatted.text), s.files⟩ := by
  rw [formatFile, h.load_eq, formatted_eq]
  rfl

/-- The file holds the formatted document if a line differs, and otherwise the text it had. -/
theorem find_formatFile_replace (h : s.Holds path p text) :
    let m := Markdown.ofText text
    (s.formatFile path .replace).files.find p =
      .file (.text (if ∃ line ∈ m.lines, formatIndented {} line ≠ line then m.formatted.text
        else text)) := by
  intro m
  obtain ⟨files, hreplace, hfind⟩ := h.files.find_replace h.file h.room m.formatted.text
  have hsame : m.lines.map (formatIndented {}) = m.lines ↔
      ¬∃ line ∈ m.lines, formatIndented {} line ≠ line :=
    FileRun.map_eq_self_iff.trans (by simp)
  rw [formatFile, h.load_eq, formatted_eq]
  by_cases hdiffers : ∃ line ∈ m.lines, formatIndented {} line ≠ line
  · have hnew : m.lines.map (formatIndented {}) ≠ m.lines := fun heq => hsame.mp heq hdiffers
    have hstore : s.store p m.formatted = fun next => next { s with files } := by
      funext next
      rw [store, hreplace]
    rw [if_pos hdiffers]
    dsimp only
    rw [if_pos (decide_eq_true hnew),
      show s.store p { m with lines := m.lines.map (formatIndented {}) } = _ from hstore]
    exact hfind
  · rw [if_neg hdiffers]
    dsimp only
    rw [if_neg (by simpa using hsame.mpr hdiffers)]
    exact h.file

/-- A file with no line that differs is written as it was read. -/
theorem formatted_eq_self {m : Markdown}
    (h : ¬∃ line ∈ m.lines, formatIndented {} line ≠ line) : m.formatted = m := by
  have hlines : m.lines.map (formatIndented {}) = m.lines :=
    FileRun.map_eq_self_iff.mpr (by simpa using h)
  rw [Markdown.formatted, hlines]

/-- A formatted file is printed, or written over. Printing leaves all files alone. Writing leaves
what is printed if a line of the file differs, and else the text that was there. The two agree
exactly if a line differs or all line breaks of the file are the dominant one. -/
theorem printed_eq_written_iff (h : s.Holds path p text) :
    let m := Markdown.ofText text
    let differs := ∃ line ∈ m.lines, formatIndented {} line ≠ line
    ∃ printed written,
      s.formatFile path .print = ⟨.exit 0 (.text printed), s.files⟩ ∧
      (s.formatFile path .replace).files.find p = .file (.text written) ∧
      written = (if differs then printed else text) ∧
      (printed = written ↔ differs ∨ ∀ b ∈ Markdown.breaks text, b = m.newline) := by
  intro m differs
  refine ⟨m.formatted.text, _, formatFile_print h, find_formatFile_replace h, rfl, ?_⟩
  by_cases hdiffers : differs
  · rw [if_pos hdiffers]
    exact iff_of_true rfl (.inl hdiffers)
  · rw [if_neg hdiffers, formatted_eq_self hdiffers, or_iff_right hdiffers]
    exact Markdown.text_ofText_eq_self_iff text

/-- A line of the journal differs, so that its three kinds of line break do not matter. -/
theorem printed_eq_written_journal :
    ∃ printed,
      journal.formatFile "journal.md".toList .print = ⟨.exit 0 (.text printed), journal.files⟩ ∧
      (journal.formatFile "journal.md".toList .replace).files.find (.ofText "journal.md".toList) =
        .file (.text printed) := by
  obtain ⟨printed, written, hprint, hwrite, -, hagree⟩ := printed_eq_written_iff holds_journal
  have hdiffers : ∃ line ∈ (Markdown.ofText "# Today\r\n- [ ]  Call Ann\r\n\r".toList).lines,
      formatIndented {} line ≠ line := ⟨"- [ ]  Call Ann".toList, by decide, by decide +kernel⟩
  rw [← hagree.mpr (.inl hdiffers)] at hwrite
  exact ⟨printed, hprint, hwrite⟩

/-- A directory with a file of one line, which is canonical and ends in a CR. -/
def memo : Surroundings where
  files := { files := [(["memo.md".toList], .text "a\r".toList)] }
  configPath := .ok (.ofText "config.yaml".toList)
  instanceId := "tpl-0123456789".toList
  timestamp := "2024-05-01T12:00:00".toList

/-- The memo is printed with a LF at its end, and keeps the CR when it is formatted. -/
theorem memo_printed_otherwise :
    ¬∀ (s : Surroundings) (path : Text) (p : Path) (text : Text), s.Holds path p text →
      ∃ printed, (s.formatFile path .print).ending = .exit 0 (.text printed) ∧
        (s.formatFile path .replace).files.find p = .file (.text printed) := by
  intro h
  have hmemo : memo.Holds "memo.md".toList (.ofText "memo.md".toList) "a\r".toList :=
    { path := show (Path.ofText "memo.md".toList).expand [] = .ok (.ofText "memo.md".toList) by
        decide +kernel
      files := by decide +kernel
      file := by decide +kernel
      room := by decide +kernel }
  obtain ⟨printed, hprint, hwrite⟩ := h _ _ _ _ hmemo
  have hfeed : printed = "a\n".toList := by
    rw [formatFile_print hmemo] at hprint
    cases hprint
    decide +kernel
  have hreturn : printed = "a\r".toList := by
    rw [find_formatFile_replace hmemo, if_neg (by decide +kernel)] at hwrite
    cases hwrite
    rfl
  exact absurd (hfeed.symm.trans hreturn) (by decide)

end Surroundings

end TaskLine
