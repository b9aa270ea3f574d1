import TaskLine.Proofs.Formatter.Placement
import TaskLine.Proofs.Frame
import TaskLine.Proofs.Layout

/-!
# Formatting a single line

Formatting the line of the cursor or the line of a number touches this line and no other
(`Touches`): it is replaced by its canonical form if that is another text, and otherwise the desk is
left as it was. When it is the line of the cursor the selection is carried over. The indentation
stays (`indent_formatIndented`), and a selection that began in it begins behind it, so the selection
is in the new line and not in front of its text (`single_line_touched`). A line that is formatted by
its number has its selection cut if the cursor is on it, and no other selection is changed.
-/

namespace TaskLine

open Text (Blank isSpace)

/-! ## The indentation stays -/

section Front

variable {c : Char} (hc : isSpace c = false)
include hc

theorem Line.exists_guardTag_cons (s : Text) : ∃ out, guardTag (c :: s) = c :: out := by
  rw [guardTag]
  split
  · obtain ⟨g, hg, hs⟩ := Text.exists_trimRight_blank (c :: s)
    cases htrim : Text.trimRight (c :: s) with
    | nil =>
        -- not all of it is white space
        rw [htrim, List.nil_append] at hs
        exact absurd (hg c (hs ▸ List.mem_cons_self)) (by rw [hc]; exact Bool.false_ne_true)
    | cons d out =>
        rw [htrim, List.cons_append, List.cons.injEq] at hs
        exact ⟨out ++ [' '], by rw [← hs.1]; rfl⟩
  · exact ⟨s, rfl⟩

theorem Line.indent_append_cons {g : Text} (hg : Blank g) (s : Text) :
    indent (g ++ c :: s) = g := by
  rw [indent, List.takeWhile_append_of_pos hg, List.takeWhile_cons_of_neg (by simp [hc]),
    List.append_nil]

/-- The first character of a task line is written first. -/
theorem exists_formatLine_cons (ov : Overrides) {cs : Text} {task : Task}
    (h : Task.read? (c :: cs) = some task) : ∃ out, formatLine ov (c :: cs) = c :: out := by
  obtain ⟨frame, hread, rfl⟩ := Frame.exists_of_task h
  obtain ⟨hline, ⟨l, b, g, x, t, -, -, -, -, -, hhead⟩, -⟩ :=
    Line.splitHead?_eq_some_iff.mp (Frame.read?_eq_some_iff.mp hread).1
  obtain ⟨d, head, hcons⟩ := List.exists_cons_of_ne_nil (l := frame.head) (by rw [hhead]; simp)
  rw [hcons, List.cons_append, List.cons.injEq] at hline
  have hfirst : (frame.task.pieces ov).head = c :: head := hcons.trans (by rw [hline.1])
  rw [formatLine_of_some h, Pieces.write_eq, hfirst, List.cons_append,
    Text.collapse_cons_of_not_space hc]
  exact Line.exists_guardTag_cons hc _

end Front

/-- Formatting leaves the indentation of a line alone. -/
theorem indent_formatIndented (ov : Overrides) (line : Text) :
    Line.indent (formatIndented ov line) = Line.indent line := by
  have hblank : Blank (Line.indent line) := fun c hc => List.mem_takeWhile_imp hc
  cases htask : Task.read? (Line.body line) with
  | none => rw [formatIndented, formatLine_of_none htask, Line.indent_append_body]
  | some task =>
      cases hbody : Line.body line with
      | nil =>
          rw [hbody] at htask
          cases htask
      | cons c cs =>
          have hc : isSpace c = false := by
            have hfirst := List.head?_dropWhile_not isSpace line
            rw [show line.dropWhile isSpace = c :: cs from hbody] at hfirst
            simpa using hfirst
          obtain ⟨out, hout⟩ := exists_formatLine_cons hc ov (hbody ▸ htask)
          rw [formatIndented, hbody, hout, Line.indent_append_cons hc hblank]

/-- A selection that is carried over begins behind the indentation. -/
theorem Selection.indent_le_start_follow {ov : Overrides} {line : Text}
    (hnew : formatIndented ov line ≠ line) (s : Selection) :
    (Line.indent line).length ≤ (s.follow ov line).start := by
  rw [follow, shift]
  exact Int.le_add_of_nonneg_left (Caret.within_map (body_ne_formatLine hnew) _).nonneg

/-! ## What one line leaves alone -/

namespace Document

/-- Formatting changes the line of a number. -/
def Differs (ov : Overrides) (n : Int) (d : Document) : Prop :=
  ∃ line ∈ d.lineAt n, formatIndented ov line ≠ line

/-- The document when its line of a number is formatted in its place, with another selection and
another record of what was asked for. -/
def withFormatted (ov : Overrides) (n : Int) (requests : List WriteRequest)
    (selection : Option Selection) (d : Document) : Document :=
  { d with
    lines := d.lines.modify n.toNat (formatIndented ov)
    writes := d.writes + 1
    requests
    selection }

variable {ov : Overrides} {n : Int} {line : Text} {d : Document}

theorem lineAt_eq_some_iff :
    d.lineAt n = some line ↔ 0 ≤ n ∧ d.lines[n.toNat]? = some line := by
  rw [lineAt]
  split
  next hn => exact iff_of_false nofun fun h => absurd h.1 (Int.not_le.mpr hn)
  next hn => exact (and_iff_right (Int.not_lt.mp hn)).symm

theorem lineAt_eq_none_iff : d.lineAt n = none ↔ n < 0 ∨ (d.lines.length : Int) ≤ n := by
  rw [lineAt]
  split
  next hn => exact iff_of_true rfl (.inl hn)
  next hn =>
    rw [List.getElem?_eq_none_iff]
    omega

theorem has_of_lineAt (hline : d.lineAt n = some line) : d.has n = true := by
  obtain ⟨hn, hline⟩ := lineAt_eq_some_iff.mp hline
  obtain ⟨hlength, -⟩ := List.getElem?_eq_some_iff.mp hline
  rw [has, decide_eq_true hn, decide_eq_true (by omega)]
  rfl

theorem modify_formatIndented (hline : d.lineAt n = some line) :
    d.lines.modify n.toNat (formatIndented ov) = d.lines.set n.toNat (formatIndented ov line) := by
  rw [List.modify_eq_set, (lineAt_eq_some_iff.mp hline).2]
  rfl

theorem replaceLine_formatIndented (hline : d.lineAt n = some line) :
    d.replaceLine n (formatIndented ov line) = d.withFormatted ov n
      (.line n (formatIndented ov line) :: d.requests)
      (if n = d.cursor then d.selection.map (cutTo (formatIndented ov line).length)
        else d.selection) := by
  rw [withFormatted, modify_formatIndented hline]
  exact if_pos (has_of_lineAt hline)

theorem replaceSelecting_formatIndented (hline : d.lineAt n = some line) (s : Selection) :
    d.replaceSelecting n (formatIndented ov line) s = d.withFormatted ov n
      (.selecting n (formatIndented ov line) s :: d.requests)
      (if n = d.cursor then some s else d.selection) := by
  rw [withFormatted, modify_formatIndented hline]
  exact if_pos (has_of_lineAt hline)

end Document

namespace Desk

/-- How a line is formatted, told by its number: if formatting changes it, it is replaced where it
stands and a change is reported, and besides the line, the number of writes and the record of what
was asked for only the selection may be another; otherwise no change is reported and the desk is
left as it was. -/
structure Touches (ov : Overrides) (n : Int) (d : Desk) (r : Attempt RunFault Desk Bool) :
    Prop where
  changed : d.document.Differs ov n → r.result = .ok true ∧ ∃ requests selection,
    r.state = { d with document := d.document.withFormatted ov n requests selection }
  unchanged : ¬d.document.Differs ov n → r = ⟨.ok false, d⟩

variable {pace : Pace} {ov : Overrides} {n : Int} {line : Text} {d : Desk}

theorem putBack_of_eq (hsame : formatIndented ov line = line) (sel : Option Selection) :
    (formatter {} pace).putBack ov n line sel d = ⟨.ok false, d⟩ :=
  if_pos hsame

/-- A line that formatting changes is replaced, and the selection is cut to it if it is there. -/
theorem putBack_none (hline : d.document.lineAt n = some line)
    (hnew : formatIndented ov line ≠ line) :
    (formatter {} pace).putBack ov n line none d = ⟨.ok true,
      { d with
        document := d.document.withFormatted ov n
          (.line n (formatIndented ov line) :: d.document.requests)
          (if n = d.document.cursor then
            d.document.selection.map (Document.cutTo (formatIndented ov line).length)
          else d.document.selection) }⟩ := by
  rw [← Document.replaceLine_formatIndented hline]
  exact if_neg hnew

/-- It is replaced along with a selection if there is one to carry over. -/
theorem putBack_some (hline : d.document.lineAt n = some line)
    (hnew : formatIndented ov line ≠ line) (s : Selection) :
    (formatter {} pace).putBack ov n line (some s) d = ⟨.ok true,
      { d with
        document := d.document.withFormatted ov n
          (.selecting n (formatIndented ov line) (s.follow ov line) :: d.document.requests)
          (if n = d.document.cursor then some (s.follow ov line)
          else d.document.selection) }⟩ := by
  rw [← Document.replaceSelecting_formatIndented hline]
  exact if_neg hnew

theorem touches_putBack (hline : d.document.lineAt n = some line) (sel : Option Selection) :
    Touches ov n d ((formatter {} pace).putBack ov n line sel d) where
  changed hdiffers := by
    obtain ⟨line', hline', hnew⟩ := hdiffers
    obtain rfl := Option.some.inj (hline.symm.trans hline')
    cases sel with
    | none =>
        rw [putBack_none hline hnew]
        exact ⟨rfl, _, _, rfl⟩
    | some s =>
        rw [putBack_some hline hnew]
        exact ⟨rfl, _, _, rfl⟩
  unchanged hsame := putBack_of_eq (not_not.mp fun hnew => hsame ⟨line, hline, hnew⟩) sel

/-- Where there is no line nothing is formatted. -/
theorem touches_none (hnone : d.document.lineAt n = none) : Touches ov n d ⟨.ok false, d⟩ where
  changed hdiffers := by
    obtain ⟨line, hline, -⟩ := hdiffers
    cases hnone.symm.trans hline
  unchanged _ := rfl

theorem formatLineAt_eq (pace : Pace) (ov : Overrides) (n : Int) (d : Desk) :
    (formatter {} pace).formatLineAt ov n d =
      match d.document.lineAt n with
      | none => ⟨.ok false, d⟩
      | some line => (formatter {} pace).putBack ov n line none d := rfl

theorem formatCurrent_eq (pace : Pace) (ov : Overrides) (d : Desk) :
    (formatter {} pace).formatCurrent ov d =
      match d.document.lineAt d.document.cursor with
      | none => ⟨.ok false, d⟩
      | some line => (formatter {} pace).putBack ov d.document.cursor line
          (some (d.document.selection.getD (.caret line.length))) d := by
  have hcurrent : (formatter {} pace).host.currentLine? = some fun d => d.document.currentLine := by
    rw [formatter_currentLine?]
    simp
  rw [Formatter.formatCurrent, hcurrent]
  dsimp only
  rw [Document.currentLine]
  cases d.document.lineAt d.document.cursor <;> rfl

theorem selection_formatCurrent (pace : Pace)
    (hline : d.document.lineAt d.document.cursor = some line)
    (hnew : formatIndented ov line ≠ line) :
    ((formatter {} pace).formatCurrent ov d).state.document.selection =
      some ((d.document.selection.getD (.caret line.length)).follow ov line) := by
  rw [formatCurrent_eq, hline]
  dsimp only
  rw [putBack_some hline hnew]
  exact if_pos rfl

theorem selection_formatLineAt (pace : Pace) (ov : Overrides) (hn : n ≠ d.document.cursor) :
    ((formatter {} pace).formatLineAt ov n d).state.document.selection = d.document.selection := by
  rw [formatLineAt_eq]
  cases hline : d.document.lineAt n with
  | none => rfl
  | some line =>
      dsimp only
      by_cases hsame : formatIndented ov line = line
      · rw [putBack_of_eq hsame]
      · rw [putBack_none hline hsame]
        exact if_neg hn

/-- Formatting the line of the cursor touches this line, and a selection that is carried over to it
is within it and not in its indentation, which has stayed. Formatting the line of a number touches
that line, none if there is none, and another line's selection is not changed. -/
theorem single_line_touched (pace : Pace) (ov : Overrides) (d : Desk) :
    let f := formatter {} pace
    let cursor := d.document.cursor
    Touches ov cursor d (f.formatCurrent ov d) ∧
      (∀ line ∈ d.document.lineAt cursor, formatIndented ov line ≠ line →
        ∃ s ∈ (f.formatCurrent ov d).state.document.selection,
          (Line.indent line).length ≤ s.start ∧ s.Within (formatIndented ov line).length ∧
          Line.indent (formatIndented ov line) = Line.indent line) ∧
      ∀ n : Int, Touches ov n d (f.formatLineAt ov n d) ∧
        (n < 0 ∨ d.document.lines.length ≤ n → f.formatLineAt ov n d = ⟨.ok false, d⟩) ∧
        (n ≠ cursor →
          (f.formatLineAt ov n d).state.document.selection = d.document.selection) := by
  intro f cursor
  refine ⟨?_, fun line hline hnew => ?_, fun n => ⟨?_, fun hout => ?_, ?_⟩⟩
  · rw [formatCurrent_eq]
    cases hline : d.document.lineAt d.document.cursor with
    | none => exact touches_none hline
    | some line => exact touches_putBack hline _
  · exact ⟨_, selection_formatCurrent pace hline hnew, Selection.indent_le_start_follow hnew _,
      Selection.within_follow hnew _, indent_formatIndented ov line⟩
  · rw [formatLineAt_eq]
    cases hline : d.document.lineAt n with
    | none => exact touches_none hline
    | some line => exact touches_putBack hline none
  · have hnone : d.document.lineAt n = none := by
      rw [Document.lineAt_eq_none_iff]
      omega
    rw [formatLineAt_eq, hnone]
  · exact selection_formatLineAt pace ov

end Desk

end TaskLine
