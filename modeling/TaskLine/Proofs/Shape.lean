import TaskLine.Proofs.Assignment.Command
import TaskLine.Proofs.Formatter.SingleLine

/-!
# The shape of a formatted line

Formatting a line changes nothing in front of its text, and nothing at all if the text does not
begin with a checkbox. A line with a checkbox has a shape behind its indentation that depends
neither on what the pieces of the task are nor on what is assigned to it
(`formatIndented_shape`): it is tidy, and a tag at its end is guarded by exactly one space.
-/

namespace TaskLine

open Text (Tidy trimRight)

/-! ## A guarded end -/

namespace Line

/-- A line that ends in a tag, not counting white space, ends in exactly one space behind it. -/
def Guarded (s : Text) : Prop := (trimRight s).getLast? = some '>' → s = trimRight s ++ [' ']

theorem endsInTag_eq_true_iff {s : Text} :
    endsInTag s = true ↔ (trimRight s).getLast? = some '>' := by
  rw [endsInTag, decide_eq_true_iff, trimRight, List.getLast?_reverse]

theorem trimRight_guardTag (s : Text) : trimRight (guardTag s) = trimRight s := by
  unfold guardTag
  split
  · have hspace : Text.Blank [' '] := by simp [Text.Blank, Text.isSpace]
    rw [Text.trimRight_append hspace, Text.trimRight_trimRight]
  · rfl

theorem guarded_guardTag (s : Text) : Guarded (guardTag s) := by
  intro htag
  rw [trimRight_guardTag] at htag ⊢
  rw [guardTag, if_pos (endsInTag_eq_true_iff.mpr htag)]

end Line

/-! ## The shape -/

variable {ov : Overrides} {line : Text}

/-- A line that begins with a checkbox can be taken apart. -/
theorem exists_read?_of_splitHead? {head rest : Text}
    (h : Line.splitHead? line = some (head, rest)) : ∃ task, Task.read? line = some task := by
  rw [Task.read?, Frame.read?, h]
  exact ⟨_, rfl⟩

theorem read?_of_splitHead?_eq_none (h : Line.splitHead? line = none) :
    Task.read? line = none := by
  rw [Task.read?, Frame.read?, h]
  rfl

theorem body_formatIndented (ov : Overrides) (line : Text) :
    Line.body (formatIndented ov line) = formatLine ov (Line.body line) := by
  have happend : Line.indent line ++ Line.body (formatIndented ov line) =
      Line.indent line ++ formatLine ov (Line.body line) := by
    rw [← indent_formatIndented ov line, Line.indent_append_body, indent_formatIndented,
      formatIndented]
  exact List.append_cancel_left happend

theorem guarded_formatLine {task : Task} (h : Task.read? line = some task) :
    Line.Guarded (formatLine ov line) := by
  rw [formatLine_of_some h, Pieces.write_eq]
  exact Line.guarded_guardTag _

/-- A formatted line has the indentation it had. Behind it stands what stood there if this does
not begin with a checkbox; else it is tidy, and guarded if it ends in a tag. -/
theorem formatIndented_shape (ov : Overrides) (line : Text) :
    Line.indent (formatIndented ov line) = Line.indent line ∧
      match Line.splitHead? (Line.body line) with
      | none => formatIndented ov line = line
      | some _ =>
        Tidy (Line.body (formatIndented ov line)) ∧
          Line.Guarded (Line.body (formatIndented ov line)) := by
  refine ⟨indent_formatIndented ov line, ?_⟩
  cases hhead : Line.splitHead? (Line.body line) with
  | none =>
      have hread : Task.read? (Line.body line) = none := read?_of_splitHead?_eq_none hhead
      change formatIndented ov line = line
      rw [formatIndented, formatLine_of_none hread, Line.indent_append_body]
  | some parts =>
      obtain ⟨task, hread⟩ := exists_read?_of_splitHead? hhead
      rw [body_formatIndented]
      exact ⟨tidy_formatLine hread, guarded_formatLine hread⟩

/-- The indentation stays, inner white space collapses, and the tag at the end is guarded. -/
example : formatIndented {} "\t - [x]  <b>\u00a0".toList = "\t - [x] <b> ".toList := by
  decide +kernel

end TaskLine
