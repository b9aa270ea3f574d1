import TaskLine.Pieces

/-!
# Formatting a line

A task line is taken apart and written again from its pieces. A line without a
checkbox is left alone, and so is a line that cannot be taken apart: formatting
never loses what the user wrote by failing.
-/

namespace TaskLine

/-- The canonical form of a line by the given way of taking it apart. -/
def formatLineWith {ε : Type} (read : Text → Except ε (Option Task)) (ov : Overrides)
    (line : Text) : Text :=
  match read line with
  | .ok (some task) => (task.pieces ov).write
  | .ok none => line
  | .error _ => line

/-- The canonical form of a line without indentation. -/
def formatLine (ov : Overrides) (line : Text) : Text :=
  formatLineWith (ε := Empty) (fun l => .ok (Task.read? l)) ov line

/-- The canonical form of a line, its indentation kept. -/
def formatIndented (ov : Overrides) (line : Text) : Text :=
  Line.indent line ++ formatLine ov (Line.body line)

theorem formatLine_of_none {ov : Overrides} {line : Text} (h : Task.read? line = none) :
    formatLine ov line = line := by
  simp [formatLine, formatLineWith, h]

theorem formatLine_of_some {ov : Overrides} {line : Text} {task : Task}
    (h : Task.read? line = some task) : formatLine ov line = (task.pieces ov).write := by
  simp [formatLine, formatLineWith, h]

end TaskLine
