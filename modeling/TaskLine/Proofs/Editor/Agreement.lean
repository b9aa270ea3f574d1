import TaskLine.Proofs.Editor.Barrier
import TaskLine.Proofs.Editor.Positions
import TaskLine.Proofs.Placement

/-!
# A pane and a document agree

A pane holds one text and the position of its cursor, a document a list of lines and the line of its
cursor. A pane *shows* a document if they have the same lines and the same cursor line. Each write
that is asked of both keeps it so (`Shows.answer`): the pane joins the lines, has the place of the
cursor found in the new text, and what its library makes of that text is again those lines and that
row (`place_write`). Hence no sequence of writes tells the two apart (`answered_agree`).
-/

namespace TaskLine

namespace WriteRequest

/-- The lines that a write asks for. -/
def texts : WriteRequest → List Text
  | .line _ text => [text]
  | .selecting _ text _ => [text]
  | .all lines => lines

/-- Whether a write asks for a selection in the line of a number. -/
def selects (row : Nat) : WriteRequest → Bool
  | .selecting n _ _ => n = row
  | _ => false

end WriteRequest

namespace Document

/-- Carry out a write that was asked for. -/
def answer : WriteRequest → Document → Document
  | .line n line => replaceLine n line
  | .selecting n line s => replaceSelecting n line s
  | .all lines => replaceAll lines

/-- The document after some writes, one after the other. -/
def answered (requests : List WriteRequest) (d : Document) : Document :=
  requests.foldl (fun d r => d.answer r) d

end Document

namespace Pane

open Text (join)
open TextBuffer (text pos lines row col line)

variable {β : Type} [TextBuffer β]

/-- The pane after some writes, one after the other. -/
def answered (requests : List WriteRequest) (p : Pane β) : Pane β :=
  requests.foldl (fun p r => (p.answer r).1) p

/-- A pane shows a document: it has the same lines, and its cursor is in the same one. -/
structure Shows (p : Pane β) (d : Document) : Prop where
  lines : lines p.buffer = d.lines
  row : row p.buffer = d.cursor
  inside : pos p.buffer ≤ (text p.buffer).length

/-- The caret stays where it is, as far as the lines allow. -/
structure CaretKept (p q : Pane β) : Prop where
  row : row q.buffer = min (row p.buffer) ((lines q.buffer).length - 1)
  col : col q.buffer = min (col p.buffer) (line q.buffer).length

variable {p : Pane β} {d : Document} {ls : List Text} {request : WriteRequest}

theorem Shows.has_eq (h : p.Shows d) (n : Int) : p.has n = d.has n := by
  rw [has, Document.has, h.lines]

variable [LawfulTextBuffer β]

/-! ## What a write makes of the buffer -/

/-- What a write makes of the buffer has the lines that were written, and its cursor is at the row
and the column asked for, both brought into them. -/
theorem place_write (hne : ls ≠ []) (hlines : ∀ l ∈ ls, '\n' ∉ l) (r : Nat) (c : Int)
    (anchor : Option Int) (p : Pane β) :
    let b := (p.write ls r c anchor).1.buffer
    lines b = ls ∧ row b = min r (ls.length - 1) ∧ col b = (clampTo (line b).length c).toNat ∧
      pos b ≤ (text b).length := by
  obtain ⟨b, dirty, htext, hpos, hwrite⟩ := exists_write ls r c anchor p
  rw [hwrite]
  have hbelow : min r (ls.length - 1) < ls.length := by
    have := List.length_pos_iff.mpr hne
    omega
  have hjoin : TextBuffer.linesOf β (join ['\n'] ls) = ls := TextBuffer.linesOf_join hne hlines
  have hget : ls[min r (ls.length - 1)]? = some ls[min r (ls.length - 1)] :=
    List.getElem?_eq_getElem hbelow
  rw [hget, Option.getD_some] at hpos
  obtain ⟨hrow, hcol, hline⟩ := TextBuffer.place_indexOf
    (c := clampTo ls[min r (ls.length - 1)].length c) ((congrArg (·[_]?) hjoin).trans hget)
  rw [← hpos, ← htext] at hrow hcol hline
  refine ⟨?_, hrow, ?_, ?_⟩
  · rw [lines, htext, hjoin]
  · rw [TextBuffer.line, hline]
    refine hcol.trans (congrArg Int.toNat ?_)
    simp only [clampTo]
    omega
  · rw [hpos, htext]
    exact LawfulTextBuffer.indexOf_le ..

theorem caretKept_refl (hpos : pos p.buffer ≤ (text p.buffer).length) : p.CaretKept p := by
  have hrow := TextBuffer.row_lt hpos
  exact ⟨by omega, (Nat.min_eq_left (TextBuffer.at_cursor hpos).within).symm⟩

theorem caretKept_write (hne : ls ≠ []) (hlines : ∀ l ∈ ls, '\n' ∉ l) (anchor : Option Int) :
    p.CaretKept (p.write ls (row p.buffer) (col p.buffer) anchor).1 := by
  obtain ⟨hblines, hrow, hcol, -⟩ :=
    place_write hne hlines (row p.buffer) (col p.buffer) anchor p
  refine ⟨by rw [hblines, hrow], ?_⟩
  rw [hcol, clampTo]
  omega

/-! ## Lines that are written -/

theorem notMem_of_mem_set {n : Nat} {l : Text} (hlines : ∀ l ∈ ls, '\n' ∉ l) (hl : '\n' ∉ l) :
    ∀ l' ∈ ls.set n l, '\n' ∉ l' := by
  intro l' hl'
  rcases List.mem_or_eq_of_mem_set hl' with hl' | rfl
  · exact hlines l' hl'
  · exact hl

/-- Lines of which one is another one than in the buffer. -/
theorem set_lines (b : β) {l : Text} (hl : '\n' ∉ l) (n : Nat) :
    (lines b).set n l ≠ [] ∧ ∀ l' ∈ (lines b).set n l, '\n' ∉ l' :=
  ⟨mt (List.set_eq_nil_iff n l).mp (TextBuffer.lines_ne_nil b),
    notMem_of_mem_set (TextBuffer.notMem_of_mem_lines b) hl⟩

/-- A write that does not set the selection in the cursor's own row keeps the caret. -/
theorem caretKept_answer (hpos : pos p.buffer ≤ (text p.buffer).length)
    (htexts : ∀ s ∈ request.texts, '\n' ∉ s) (hrow : request.selects (row p.buffer) = false) :
    p.CaretKept (p.answer request).1 := by
  have hline : ∀ n l, '\n' ∉ l → p.CaretKept (p.writeLine n l).1 := by
    intro n l hl
    rw [writeLine]
    split
    · obtain ⟨hne, hlines⟩ := set_lines p.buffer hl n.toNat
      exact caretKept_write hne hlines none
    · exact caretKept_refl hpos
  cases request with
  | line n l => exact hline n l (htexts l (List.mem_singleton_self _))
  | selecting n l s =>
      rw [answer, writeSelecting, if_neg]
      · exact hline n l (htexts l (List.mem_singleton_self _))
      · rw [Bool.and_eq_true, not_and]
        exact fun _ => by simpa [WriteRequest.selects] using hrow
  | all ls =>
      rw [answer, writeAll]
      split
      · exact caretKept_write (List.cons_ne_nil _ _) (by simp) none
      next hsome => exact caretKept_write (mt List.isEmpty_iff.mpr hsome) htexts none

/-! ## The same document -/

/-- A line that is written in the place of another leaves the cursor in the row asked for. -/
theorem place_write_set (n : Nat) {r : Nat} {l : Text} (hl : '\n' ∉ l)
    (hrow : r < (lines p.buffer).length) (c : Int) (anchor : Option Int) :
    let b := (p.write ((lines p.buffer).set n l) r c anchor).1.buffer
    lines b = (lines p.buffer).set n l ∧ row b = r ∧ pos b ≤ (text b).length := by
  obtain ⟨hne, hunbroken⟩ := set_lines p.buffer hl n
  obtain ⟨hlines, hrow', -, hinside⟩ := place_write hne hunbroken r c anchor p
  refine ⟨hlines, hrow'.trans ?_, hinside⟩
  rw [List.length_set]
  exact Nat.min_eq_left (Nat.le_sub_one_of_lt hrow)

variable {n : Int} {l : Text} {d' : Document}

theorem Shows.writeLine (h : p.Shows d) (hl : '\n' ∉ l)
    (hd' : d'.lines = (if d.has n then d.lines.set n.toNat l else d.lines) ∧
      d'.cursor = d.cursor) : (p.writeLine n l).1.Shows d' := by
  obtain ⟨hlines, hcursor⟩ := hd'
  rw [← h.lines, ← h.has_eq] at hlines
  rw [Pane.writeLine]
  split
  next hhas =>
    rw [if_pos hhas] at hlines
    obtain ⟨hblines, hrow, hinside⟩ :=
      place_write_set n.toNat hl (TextBuffer.row_lt h.inside) (col p.buffer) none
    exact ⟨hblines.trans hlines.symm, hrow.trans (h.row.trans hcursor.symm), hinside⟩
  next hhas =>
    rw [if_neg hhas] at hlines
    exact ⟨hlines.symm, h.row.trans hcursor.symm, h.inside⟩

/-- A write that is asked of both leaves the pane showing the document. -/
theorem Shows.answer (h : p.Shows d) (htexts : ∀ s ∈ request.texts, '\n' ∉ s) :
    (p.answer request).1.Shows (d.answer request) := by
  cases request with
  | line n l => exact h.writeLine (htexts l (List.mem_singleton_self _)) (d.place_replaceLine n l)
  | selecting n l s =>
      have hl := htexts l (List.mem_singleton_self _)
      have hd' := d.place_replaceSelecting n l s
      rw [Pane.answer, writeSelecting]
      split
      next hown =>
        rw [Bool.and_eq_true, decide_eq_true_eq] at hown
        have hrow : n.toNat = TextBuffer.row p.buffer := by omega
        rw [← h.lines, ← h.has_eq, if_pos hown.1] at hd'
        obtain ⟨hblines, hbrow, hinside⟩ := place_write_set n.toNat hl
          (hrow ▸ TextBuffer.row_lt h.inside) s.stop
          (if s.isRange then some (min s.start l.length) else none)
        exact ⟨hblines.trans hd'.1.symm, hbrow.trans (hrow.trans (h.row.trans hd'.2.symm)), hinside⟩
      · exact h.writeLine hl hd'
  | all ls =>
      have hkept : (if ls.isEmpty then [[]] else ls) ≠ [] ∧
          ∀ l ∈ if ls.isEmpty then [[]] else ls, '\n' ∉ l := by
        split
        · exact ⟨List.cons_ne_nil _ _, by simp⟩
        next hsome => exact ⟨mt List.isEmpty_iff.mpr hsome, htexts⟩
      obtain ⟨hlines, hrow, -, hinside⟩ :=
        place_write hkept.1 hkept.2 (TextBuffer.row p.buffer) (col p.buffer) none p
      refine ⟨hlines, hrow.trans ?_, hinside⟩
      rw [h.row]
      rfl

theorem Shows.answered {requests : List WriteRequest} (h : p.Shows d)
    (htexts : ∀ r ∈ requests, ∀ s ∈ r.texts, '\n' ∉ s) :
    (p.answered requests).Shows (d.answered requests) := by
  induction requests generalizing p d with
  | nil => exact h
  | cons r requests ih =>
      obtain ⟨hr, hrest⟩ := List.forall_mem_cons.mp htexts
      exact ih (h.answer hr) hrest

/-- Whatever library its buffer is from, a pane over the text of some lines and a document of the
same lines, with the cursor in the same one, agree on all lines, on the line of every number and on
the line of the cursor, whatever writes were asked of both. In the pane a further write keeps the
caret, as far as the lines allow, unless it sets the selection in the caret's own row. -/
theorem answered_agree (ls : List Text) (hne : ls ≠ []) (hlines : ∀ l ∈ ls, '\n' ∉ l) (p : Pane β)
    (htext : text p.buffer = join ['\n'] ls) (hpos : pos p.buffer ≤ (text p.buffer).length)
    (selection : Option Selection) (requests : List WriteRequest)
    (htexts : ∀ r ∈ requests, ∀ s ∈ r.texts, '\n' ∉ s) :
    let q := p.answered requests
    let d := (Document.ofLines ls (row p.buffer) selection).answered requests
    lines q.buffer = d.lines ∧ (∀ n, q.lineAt n = d.lineAt n) ∧ row q.buffer = d.cursor ∧
      ∀ request : WriteRequest, (∀ s ∈ request.texts, '\n' ∉ s) →
        request.selects (row q.buffer) = false → q.CaretKept (q.answer request).1 := by
  intro q d
  have hblines : lines p.buffer = ls := by
    rw [lines, htext, TextBuffer.linesOf_join hne hlines]
  have hstart : p.Shows (Document.ofLines ls (row p.buffer) selection) := by
    have hempty : ls.isEmpty = false := by simpa using hne
    have hrow := TextBuffer.row_lt hpos
    rw [hblines] at hrow
    refine ⟨?_, ?_, hpos⟩
    · simp only [Document.ofLines, hempty, hblines, Bool.false_eq_true, if_false]
    · simp only [Document.ofLines, hempty, Document.clampLine, Bool.false_eq_true, if_false]
      omega
  have h : q.Shows d := hstart.answered htexts
  refine ⟨h.lines, fun n => ?_, h.row, fun request hrequest hselects =>
    caretKept_answer h.inside hrequest hselects⟩
  rw [lineAt, Document.lineAt, h.lines]

/-- The caret at the end of the second of three lines: a write to a line above, two lines in the
place of all, a line that is not there. -/
theorem answered_agree_threeLines :
    let p : Pane := .ofText "one\ntwo\nthree".toList 11
    let requests : List WriteRequest :=
      [.line 0 "1".toList, .all ["a".toList, "bc".toList], .selecting 5 "d".toList ⟨-1, 4⟩]
    let q := p.answered requests
    row p.buffer = 2 ∧ text q.buffer = "a\nbc".toList ∧ row q.buffer = 1 ∧ col q.buffer = 2 ∧
      lines q.buffer = ((Document.ofLines ["one".toList, "two".toList, "three".toList] 2
        none).answered requests).lines ∧
      q.CaretKept (q.answer (.line 1 [])).1 := by
  intro p requests q
  obtain ⟨hlines, -, -, hkept⟩ := answered_agree ["one".toList, "two".toList, "three".toList]
    (by decide) (by decide) p (by decide) (by decide) none requests (by decide)
  have hrow : row p.buffer = 2 := by decide
  rw [hrow] at hlines
  exact ⟨hrow, by decide, by decide, by decide, hlines, hkept (.line 1 []) (by decide) rfl⟩

end Pane

end TaskLine
