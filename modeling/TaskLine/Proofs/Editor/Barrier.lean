import TaskLine.Document
import TaskLine.Editor.Pane
import TaskLine.Proofs.Editor.Lawful

/-!
# Behind the barrier

A pane is *watching* while it hears of cursor moves, is not writing itself, and knows the row that
the cursor is on. Moves of the user and writes of the formatter leave it watching
(`Watching.perform`). A move is told if it changes the row, from the row before it to the one behind
it (`Watching.moveTo`); a write is not told, whatever it makes of the row, because no cursor
move is reported while it is under way and the pane looks for the row again when it is done
(`exists_write`). So in any course of moves and writes the listeners hear once of each change of row
that the user made, and of nothing else (`told_eq_crossings`). Of the library that the buffer is
from no more is relied on than that it keeps its laws.
-/

namespace TaskLine

open TextBuffer (text pos row indexOf)

/-- Something that is done to a pane: the user moves the cursor, or the formatter writes. -/
inductive Deed where
  | move (pos : Int)
  | write (request : WriteRequest)
deriving DecidableEq, Repr

namespace Pane

variable {β : Type} [TextBuffer β]

/-- Carry out a write that was asked for. -/
def answer : WriteRequest → Pane β → Pane β × Option Notice
  | .line n line => writeLine n line
  | .selecting n line s => writeSelecting n line s
  | .all lines => writeAll lines

def perform : Deed → Pane β → Pane β × Option Notice
  | .move pos => moveTo pos
  | .write r => answer r

/-- The pane after some deeds, one after the other. -/
def performed (deeds : List Deed) (p : Pane β) : Pane β :=
  deeds.foldl (fun p deed => (p.perform deed).1) p

/-- What the listeners are told in the course of some deeds, each under its tag. -/
def told : List Deed → Pane β → List (Text × Notice)
  | [], _ => []
  | deed :: deeds, p =>
    let q := (p.perform deed).1
    (p.perform deed).2.toList.flatMap (fun n => (q.reached n).map fun tag => (tag, n)) ++
      told deeds q

/-- The change of row that the user makes with a deed, from the row before it to the one behind. -/
def crossing? (deed : Deed) (p : Pane β) : Option Notice :=
  match deed with
  | .move pos =>
    let q := (p.moveTo pos).1
    if row q.buffer = row p.buffer then none
    else some (.cursorLineChanged (row p.buffer) (row q.buffer))
  | .write _ => none

/-- The changes of row that the user makes in the course of some deeds. -/
def crossings : List Deed → Pane β → List Notice
  | [], _ => []
  | deed :: deeds, p => (p.crossing? deed).toList ++ crossings deeds (p.perform deed).1

/-- The pane hears of cursor moves, is not writing, and knows the row of the cursor. -/
structure Watching (p : Pane β) : Prop where
  opened : p.opened = true
  idle : p.mutating = false
  lastRow : p.lastRow = row p.buffer

variable {p : Pane β} {e : Edited β} {deeds : List Deed} {request : WriteRequest}

/-! ## What is done and told -/

/-- When something was done to the buffer, what the pane knows of the cursor's row and of changes of
the text may change with it, and nothing else. -/
theorem exists_become (e : Edited β) (p : Pane β) :
    ∃ lastRow dirty, (p.become e).1 = { p with buffer := e.buffer, lastRow, dirty } := by
  rw [become]
  cases e.moved with
  | none => exact ⟨_, _, rfl⟩
  | some b =>
      dsimp only
      rw [cursorMoved]
      split
      · exact ⟨_, _, rfl⟩
      · exact ⟨_, _, rfl⟩

/-- While the formatter writes no cursor move is reported. -/
theorem told_become_of_mutating (e : Edited β) (h : p.mutating = true) : (p.become e).2 = none := by
  rw [become]
  cases e.moved with
  | none => rfl
  | some b =>
      dsimp only
      rw [cursorMoved, if_pos (by simp [h])]

/-- A pane that hears of cursor moves looks for the row when the cursor has moved, and tells of it
if it is not the one that it knew. -/
theorem become_eq (hopened : p.opened = true) (hidle : p.mutating = false)
    (he : e.Announces p.buffer) :
    p.become e =
      if pos e.buffer = pos p.buffer then
        ({ p with buffer := e.buffer, dirty := p.dirty || e.changed }, none)
      else
        ({ p with buffer := e.buffer, lastRow := row e.buffer, dirty := p.dirty || e.changed },
          if row e.buffer = p.lastRow then none
          else some (.cursorLineChanged p.lastRow (row e.buffer))) := by
  rw [become, he]
  by_cases hpos : pos e.buffer = pos p.buffer
  · rw [if_pos hpos, if_pos hpos]
  · rw [if_neg hpos, if_neg hpos]
    dsimp only
    rw [cursorMoved, if_neg (by simp [hopened, hidle])]

/-- A write that was asked for is carried out as one write of lines, or there is no such line. -/
theorem answer_cases (request : WriteRequest) (p : Pane β) :
    p.answer request = (p, none) ∨
      ∃ lines row col anchor, p.answer request = p.write lines row col anchor := by
  have hline : ∀ n line, p.writeLine n line = (p, none) ∨
      ∃ lines row col anchor, p.writeLine n line = p.write lines row col anchor := by
    intro n line
    rw [writeLine]
    split
    · exact .inr ⟨_, _, _, _, rfl⟩
    · exact .inl rfl
  cases request with
  | line n line => exact hline n line
  | selecting n line s =>
      rw [answer, writeSelecting]
      split
      · exact .inr ⟨_, _, _, _, rfl⟩
      · exact hline n line
  | all lines =>
      rw [answer, writeAll]
      exact .inr ⟨_, _, _, _, rfl⟩

theorem event_of_crossing? {deed : Deed} {n : Notice} (h : p.crossing? deed = some n) :
    n.event = .cursorLineChanged := by
  cases deed with
  | move pos =>
      obtain ⟨-, h⟩ := Option.ite_none_left_eq_some.mp h
      rw [← Option.some.inj h]
      rfl
  | write request => cases h

variable [LawfulTextBuffer β]

/-! ## Moves and writes -/

/-- A move of the user leaves a pane watching, and is told if it changes the row. -/
theorem Watching.moveTo (h : p.Watching) (i : Int) :
    (p.moveTo i).1.Watching ∧ (p.moveTo i).2 = p.crossing? (.move i) := by
  have hmove : p.moveTo i = _ :=
    become_eq h.opened h.idle (LawfulTextBuffer.announces_moveTo i p.buffer)
  rw [crossing?, hmove]
  split
  next hpos =>
    -- a cursor that stays where it is stays in its row, since the text is the same
    have hrow : row (TextBuffer.moveTo i p.buffer).buffer = row p.buffer := by
      rw [row, row, hpos, LawfulTextBuffer.text_moveTo]
    exact ⟨⟨h.opened, h.idle, h.lastRow.trans hrow.symm⟩, (if_pos hrow).symm⟩
  next => exact ⟨⟨h.opened, h.idle, rfl⟩, by rw [h.lastRow]⟩

/-- A write leaves the lines joined in the buffer, with the cursor at a row and a column brought
into them. The barrier is down again, the pane knows the cursor's row, and nothing was told. -/
theorem exists_write (lines : List Text) (r : Nat) (col : Int) (anchor : Option Int) (p : Pane β) :
    ∃ b dirty,
      let r' := min r (lines.length - 1)
      text b = Text.join ['\n'] lines ∧
        pos b = indexOf β (Text.join ['\n'] lines) r' (clampTo (lines[r']?.getD []).length col) ∧
        p.write lines r col anchor =
          ({ p with
              buffer := b, lastRow := row b, mutating := false, redraws := p.redraws + 1, dirty },
            none) := by
  rw [write]
  dsimp only
  have hinside : indexOf β (Text.join ['\n'] lines) (min r (lines.length - 1))
      (clampTo (lines[min r (lines.length - 1)]?.getD []).length col) ≤ _ :=
    LawfulTextBuffer.indexOf_le ..
  generalize indexOf β (Text.join ['\n'] lines) _ (clampTo _ col) = i at hinside ⊢
  generalize Text.join ['\n'] lines = s at hinside ⊢
  have htext := LawfulTextBuffer.text_put s i p.buffer hinside
  have hpos := LawfulTextBuffer.pos_put s i p.buffer hinside
  obtain ⟨lastRow, dirty, hbecome⟩ :=
    exists_become (TextBuffer.put s i p.buffer) { p with mutating := true }
  rw [told_become_of_mutating _ rfl, hbecome]
  cases anchor with
  | none => exact ⟨_, dirty, htext, hpos, rfl⟩
  | some a =>
      exact ⟨_, dirty, (LawfulTextBuffer.text_setAnchor ..).trans htext,
        (LawfulTextBuffer.pos_setAnchor ..).trans hpos, rfl⟩

/-! ## Whole courses -/

/-- Whatever is done, a watching pane is left watching, its listeners are those it had, and they
are told of the user's change of row and of nothing else. -/
theorem Watching.perform (h : p.Watching) (deed : Deed) :
    (p.perform deed).1.Watching ∧ (p.perform deed).1.listeners = p.listeners ∧
      (p.perform deed).2 = p.crossing? deed := by
  cases deed with
  | move i =>
      obtain ⟨lastRow, dirty, hbecome⟩ := exists_become (TextBuffer.moveTo i p.buffer) p
      refine ⟨(h.moveTo i).1, ?_, (h.moveTo i).2⟩
      rw [show (p.perform (.move i)).1 = (p.become (TextBuffer.moveTo i p.buffer)).1 from rfl,
        hbecome]
  | write request =>
      rw [Pane.perform]
      rcases answer_cases request p with hnone | ⟨lines, r, col, anchor, hwrite⟩
      · rw [hnone]
        exact ⟨h, rfl, rfl⟩
      · obtain ⟨b, dirty, -, -, hwritten⟩ := exists_write lines r col anchor p
        rw [hwrite, hwritten]
        exact ⟨⟨h.opened, rfl, rfl⟩, rfl, rfl⟩

theorem Watching.performed (h : p.Watching) (deeds : List Deed) : (p.performed deeds).Watching := by
  induction deeds generalizing p with
  | nil => exact h
  | cons deed deeds ih => exact ih (h.perform deed).1

theorem Watching.told_eq (h : p.Watching) (deeds : List Deed) :
    told deeds p = (crossings deeds p).flatMap fun n =>
      (p.listeners.tagsOf .cursorLineChanged).map fun tag => (tag, n) := by
  induction deeds generalizing p with
  | nil => rfl
  | cons deed deeds ih =>
      obtain ⟨hwatching, hlisteners, hnotice⟩ := h.perform deed
      have hrest := ih hwatching
      rw [hlisteners] at hrest
      rw [told, crossings, List.flatMap_append, ← hrest, hnotice]
      cases hcrossing : p.crossing? deed with
      | none => rfl
      | some n =>
          simp only [Option.toList_some, List.flatMap_singleton, reached, hlisteners,
            event_of_crossing? hcrossing]

/-- Whatever library a buffer is from, whatever it holds when a pane is put over it, whoever
listens, and in whatever order the user moves the cursor and the formatter writes: each listener is
told once of each change of row that the user made, from the row before the move to the one behind
it, and of nothing else. Whatever has been done, the barrier is down again and the pane knows the
row of the cursor. -/
theorem told_eq_crossings (b : β) (listeners : Listeners) (deeds : List Deed) :
    let p := { ofBuffer b with listeners }
    told deeds p = (crossings deeds p).flatMap (fun n =>
        (listeners.tagsOf .cursorLineChanged).map fun tag => (tag, n)) ∧
      (p.performed deeds).mutating = false ∧
      (p.performed deeds).lastRow = row (p.performed deeds).buffer := by
  intro p
  have h : p.Watching := ⟨rfl, rfl, rfl⟩
  exact ⟨h.told_eq deeds, (h.performed deeds).idle, (h.performed deeds).lastRow⟩

/-- The user goes down a row, a write takes the cursor up again, and the user moves on there. -/
theorem told_eq_crossings_down :
    let listeners := ({} : Listeners).subscribe .cursorLineChanged "rows".toList
    let b : Buffer := { text := "a\nb".toList, pos := 0 }
    told [.move 2, .write (.all ["ab".toList]), .move 0] { ofBuffer b with listeners } =
      [("rows".toList, .cursorLineChanged 0 1)] := by
  intro listeners b
  obtain ⟨htold, -, -⟩ :=
    told_eq_crossings b listeners [.move 2, .write (.all ["ab".toList]), .move 0]
  exact htold.trans (by decide)

end Pane

end TaskLine
