import TaskLine.Caret
import TaskLine.Format
import TaskLine.Formatter.Basic

/-!
# Formatting one line of a host

The line is written back only if formatting changes it. When it is the current
line the selection moves along: it is mapped on the line without its
indentation, which formatting leaves alone, and moved back behind it.
-/

namespace TaskLine

/-- A selection carried over from a line to its formatted text. The part of it
that lies in the indentation counts as the start of the text behind. -/
def Selection.follow (ov : Overrides) (line : Text) (s : Selection) : Selection :=
  let shift : Int := (Line.indent line).length
  let relative : Selection := ⟨max 0 (s.start - shift), max 0 (s.stop - shift)⟩
  (Caret.map (Line.body line) (formatLine ov (Line.body line)) relative).shift shift

namespace Formatter

variable {σ : Type}

/-- Write the formatted text of a line back, if it differs. The result says
whether it was written. -/
def putBack (f : Formatter σ) (ov : Overrides) (n : Int) (line : Text) (sel : Option Selection)
    (s : σ) : Attempt RunFault σ Bool :=
  let new := formatIndented ov line
  let written := fun (r : Attempt RunFault σ Unit) =>
    (⟨r.result.map fun _ => true, r.state⟩ : Attempt RunFault σ Bool)
  if new = line then ⟨.ok false, s⟩
  else
    match sel, f.host.replaceSelecting?, f.host.replaceLine? with
    | some sel, some replace, _ => written (replace n new (sel.follow ov line) s)
    | _, _, some replace => written (replace n new s)
    | _, _, none => ⟨.ok false, s⟩

/-- Format the line that the cursor is on. -/
def formatCurrent (f : Formatter σ) (ov : Overrides) (s : σ) : Attempt RunFault σ Bool :=
  match f.host.currentLine? with
  | none => ⟨.error .noCurrentLine, s⟩
  | some current =>
    match current s with
    | none => ⟨.ok false, s⟩
    | some c => f.putBack ov c.number c.text (some (c.selection.getD (.caret c.text.length))) s

/-- Format the line of a number. -/
def formatLineAt (f : Formatter σ) (ov : Overrides) (n : Int) (s : σ) : Attempt RunFault σ Bool :=
  match f.host.lineAt? with
  | none => ⟨.ok false, s⟩
  | some lineAt =>
    match lineAt n s with
    | none => ⟨.ok false, s⟩
    | some line => f.putBack ov n line none s

end Formatter

end TaskLine
