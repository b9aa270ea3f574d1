import TaskLine.Proofs.Editor.Agreement
import TaskLine.Proofs.Editor.Course
import TaskLine.Proofs.Reformatting

/-!
# Enter

Enter commits the line and begins a new one, and both are notices to the scheduler: the first one
asks for the current line, the second one for the line that the cursor left, and it takes the place
of the first one if it is made. It names the row that the pane took for the cursor's, so it is the
line which enter ended that is formatted, exactly if the pane knew the row (`enter_formats_iff`).
-/

namespace TaskLine

/-! ## The new line -/

section

open TextBuffer (text pos row)

variable {β : Type} [TextBuffer β]

/-- The buffer with a line begun at the cursor. -/
abbrev TextBuffer.begun (b : β) : β := (newline b).buffer

variable [LawfulTextBuffer β]

/-- A new line is begun below the cursor's line. -/
theorem TextBuffer.row_begun {b : β} (hb : pos b ≤ (text b).length) :
    row (begun b) = row b + 1 := by
  have hline : '\n' ∉ line b :=
    notMem_of_mem_lines b _ (List.mem_of_getElem? (at_cursor hb).here)
  have hmargin : (margin b).count '\n' = 1 := by
    rw [margin, List.count_cons_self, List.count_eq_zero_of_not_mem]
    exact fun hmem => hline ((List.takeWhile_sublist _).mem hmem)
  have hlength : ((text b).take (pos b) ++ margin b).length = pos b + (margin b).length := by
    rw [List.length_append, List.length_take, Nat.min_eq_left hb]
  rw [row_eq_count (newline_inside hb), LawfulTextBuffer.text_newline b hb,
    LawfulTextBuffer.pos_newline b hb, ← hlength, List.take_left, List.count_append, hmargin,
    ← row_eq_count hb]

end

open TextBuffer (text pos lines row col begun)

namespace Pane

variable {β : Type} [TextBuffer β] {p q : Pane β}

/-- What the listeners are told when enter begins a new line. -/
def crossed? (p : Pane β) : Option Notice :=
  let row := row (begun p.buffer)
  if row = p.lastRow then none else some (.cursorLineChanged p.lastRow row)

variable [LawfulTextBuffer β]

theorem newline_eq (hinside : pos p.buffer ≤ (text p.buffer).length) (hopened : p.opened = true)
    (hidle : p.mutating = false) :
    ∃ dirty, p.newline =
      ({ p with buffer := begun p.buffer, lastRow := row (begun p.buffer), dirty },
        p.crossed?) := by
  have hmoves : pos (begun p.buffer) ≠ pos p.buffer := by
    rw [LawfulTextBuffer.pos_newline _ hinside]
    simp [TextBuffer.margin]
  refine ⟨p.dirty || (TextBuffer.newline p.buffer).changed, ?_⟩
  exact (become_eq hopened hidle (LawfulTextBuffer.announces_newline _ hinside)).trans
    (if_neg hmoves)

/-- A line that is written in another row than the cursor's leaves the cursor in its place. -/
theorem writeLine_other (hinside : pos p.buffer ≤ (text p.buffer).length) {n : Nat} {l : Text}
    (hl : '\n' ∉ l) (hn : n < (lines p.buffer).length) (hother : n ≠ row p.buffer) :
    let b := (p.writeLine n l).1.buffer
    lines b = (lines p.buffer).set n l ∧ row b = row p.buffer ∧ col b = col p.buffer := by
  intro b
  have hhas : p.has n = true := by simp [has, hn]
  have hplace := TextBuffer.at_cursor hinside
  have hrow := TextBuffer.row_lt hinside
  have hb :
      b = (p.write ((lines p.buffer).set n l) (row p.buffer) (col p.buffer) none).1.buffer := by
    rw [show b = (p.writeLine n l).1.buffer from rfl, writeLine, if_pos hhas, Int.toNat_natCast]
  obtain ⟨hne, hunbroken⟩ := set_lines p.buffer hl n
  obtain ⟨hlines, hbrow, hinside'⟩ := place_write_set n hl hrow (col p.buffer) none
  have hkept := caretKept_write (p := p) hne hunbroken none
  rw [hb]
  refine ⟨hlines, hbrow, hkept.col.trans ?_⟩
  have hline := (TextBuffer.at_cursor hinside').here
  rw [hlines, hbrow, List.getElem?_set_ne hother, hplace.here] at hline
  rw [← Option.some.inj hline]
  exact Nat.min_eq_left hplace.within

end Pane

namespace Editor

open Machine (Aloof Waited Quiet)

variable {β : Type} [TextBuffer β] {m : Machine (Editor β)} {known : Prop} {ms : Nat}

/-- The scheduler is attached, idle and not disposed of, and the switches let through that a line
is committed. Someone who is about to leave would dispose of it before the delay has passed, so
there is nobody either. -/
structure Attends (m : Machine (Editor β)) : Prop where
  attached : m.attached = true
  idle : m.activity = .idle
  disposed : m.disposed = false
  leaves : .wake .leaver ∉ m.ready
  allows : ((setupOf m).flags m.world).allows .commit = true

/-! ## The key is pressed -/

/-- A notice reaches a scheduler that listens once. -/
theorem notify_eq {n : Notice} {tag : Text}
    (hlistens : m.world.pane.listeners.tagsOf n.event = [tag]) :
    notify n m = m.notice (setupOf m) true n := by
  rw [notify, Pane.reached, hlistens]
  rfl

/-- The last notice when enter is pressed. -/
def lastNotice (p : Pane β) : Notice := p.crossed?.getD .lineCommitted

theorem allows_lastNotice {flags : Flags} (h : flags.allows .commit = true) (p : Pane β) :
    flags.allows (Machine.requestOf (lastNotice p)).reason = true := by
  rw [lastNotice, Pane.crossed?]
  split <;> exact h

theorem lineCall_lastNotice (p : Pane β) :
    (Machine.requestOf (lastNotice p)).lineCall =
      if row (begun p.buffer) = p.lastRow then .current else .line p.lastRow := by
  rw [lastNotice, Pane.crossed?]
  split <;> rfl

theorem scope_lastNotice (p : Pane β) : (Machine.requestOf (lastNotice p)).scope = .line := by
  rw [lastNotice, Pane.crossed?]
  split <;> rfl

theorem lastNotice_of_ne {p : Pane β} (h : row (begun p.buffer) ≠ p.lastRow) :
    lastNotice p = .cursorLineChanged p.lastRow (row (begun p.buffer)) := by
  rw [lastNotice, Pane.crossed?, if_neg h]
  rfl

theorem formatLineAt_eq {e : Editor β} {n : Nat} {line : Text}
    (hline : (lines e.pane.buffer)[n]? = some line) :
    (Formatter.formatLineAt (formatter : Formatter (Editor β)) {} n e).state =
      if formatIndented {} line = line then e
      else { e with pane := (e.pane.writeLine n (formatIndented {} line)).1 } := by
  have hat :
      (formatter : Formatter (Editor β)).host.lineAt? = some fun n e => e.pane.lineAt n := rfl
  have hhere : e.pane.lineAt n = some line := by
    rw [Pane.lineAt, if_neg (by omega), Int.toNat_natCast, hline]
  rw [Formatter.formatLineAt, hat]
  dsimp only
  rw [hhere]
  exact (apply_ite (Attempt.state) _ _ _).trans rfl

variable [LawfulTextBuffer β]

/-- When enter was pressed one request waits for its time, that of the last notice, and a line was
begun. -/
theorem Sound.enter (h : Sound known m) (hm : Attends m) :
    let entered := (Editor.press m .enter).state
    (∃ id, entered.Waited
        ⟨id, m.now + m.world.delay, Machine.requestOf (lastNotice m.world.pane)⟩) ∧
      entered.now = m.now ∧ entered.calls = m.calls ∧
      ∃ dirty, entered.world = { m.world with pane := { m.world.pane with
        buffer := begun m.world.pane.buffer, lastRow := row (begun m.world.pane.buffer)
        dirty } } := by
  intro entered
  have hlistens (event : HostEvent) : m.world.pane.listeners.tagsOf event = [event.name] := by
    rw [h.wired.listens hm.disposed, if_pos hm.attached]
  have hfree : m.Free := Machine.free_of_idle h.regular hm.disposed hm.idle hm.leaves
  obtain ⟨hwaited, hquiet, hnow⟩ := hfree.notice (c := setupOf m) (n := .lineCommitted) hm.allows
  obtain ⟨dirty, hnewline⟩ :=
    Pane.newline_eq h.wired.inside (h.wired.opened hm.disposed) h.wired.idle
  rw [← notify_eq (hlistens _)] at hwaited hquiet hnow
  let e : Editor β := { m.world with pane := { m.world.pane with
    buffer := begun m.world.pane.buffer, lastRow := row (begun m.world.pane.buffer), dirty } }
  have hentered : entered = edit Pane.newline (Editor.notify .lineCommitted m) := rfl
  rw [edit_eq, hquiet.world, hnewline] at hentered
  let begun : Machine (Editor β) := { Editor.notify .lineCommitted m with world := e }
  have hbegun : Waited _ begun := hwaited.meanwhile _ e
  cases hcrossed : m.world.pane.crossed? with
  | none =>
      rw [hcrossed] at hentered
      rw [hentered, lastNotice, hcrossed]
      exact ⟨⟨_, hbegun⟩, hnow, hquiet.calls, dirty, rfl⟩
  | some n =>
      -- the request that the notice makes takes the place of the one for the commit
      have hallows : ((setup e.delay).flags e).allows (Machine.requestOf n).reason = true := by
        have hlast := allows_lastNotice hm.allows m.world.pane
        rwa [lastNotice, hcrossed] at hlast
      obtain ⟨hagain, hquiet', hnow'⟩ := hbegun.toFree.notice (c := setup e.delay) hallows
      rw [hcrossed] at hentered
      have hnotified : entered = begun.notice (setup e.delay) true n :=
        hentered.trans (notify_eq (m := begun) (hlistens n.event))
      rw [hnotified, lastNotice, hcrossed, ← hnow]
      exact ⟨⟨_, hagain⟩, hnow', hquiet'.calls.trans hquiet.calls, dirty, hquiet'.world⟩

/-! ## The line is formatted -/

/-- When the time of the request has come there was one call, and the buffer is as the formatter
left it. -/
theorem Sound.enter_settled (h : Sound known m) (hm : Attends m) (hms : m.world.delay ≤ ms) :
    let entered := (Editor.press m .enter).state
    let settled := entered.advance (setupOf entered) ms
    let r := Machine.requestOf (lastNotice m.world.pane)
    settled.calls = r.lineCall :: m.calls ∧
      settled.world.pane.buffer =
        ((setupOf entered).formatsLine r entered.world).state.pane.buffer := by
  intro entered settled r
  obtain ⟨⟨id, hwaited⟩, hnow, hcalls, dirty, hworld⟩ := h.enter hm
  have hpassed : Waited ⟨id, m.now + m.world.delay, r⟩ { entered with now := entered.now + ms } :=
    hwaited.meanwhile _ entered.world
  have hmaster : ((setupOf entered).flags entered.world).master = true := by
    have hflags : (setupOf entered).flags entered.world = (setupOf m).flags m.world := by
      rw [setupOf, hworld]
      rfl
    rw [hflags]
    exact (Bool.and_eq_true_iff.mp hm.allows).1
  have hdue : m.now + m.world.delay ≤ entered.now + ms := by
    rw [hnow]
    exact Nat.add_le_add_left hms _
  have hscope : r.scope ≠ .file := by
    rw [show r.scope = .line from scope_lastNotice _]
    decide
  have hsettled := hpassed.settle (c := setupOf entered)
    (P := fun e => e.pane.buffer =
      ((setupOf entered).formatsLine r entered.world).state.pane.buffer)
    (fun event e he => he) (fun e he => he) hdue hscope hmaster (fun _ => rfl) rfl
  rw [← hcalls]
  exact hsettled

/-- Formatting the line of a number, other than the cursor's, changes nothing else. -/
theorem buffer_formatLineAt {e : Editor β} {n : Nat}
    (hinside : pos e.pane.buffer ≤ (text e.pane.buffer).length)
    (hn : n < (lines e.pane.buffer).length) (hother : n ≠ row e.pane.buffer) :
    let b := (Formatter.formatLineAt (formatter : Formatter (Editor β)) {} n e).state.pane.buffer
    lines b = (lines e.pane.buffer).modify n (formatIndented {}) ∧
      row b = row e.pane.buffer ∧ col b = col e.pane.buffer := by
  have hline : (lines e.pane.buffer)[n]? = some (lines e.pane.buffer)[n] :=
    List.getElem?_eq_getElem hn
  have hunbroken : '\n' ∉ (lines e.pane.buffer)[n] :=
    TextBuffer.notMem_of_mem_lines _ _ (List.getElem_mem hn)
  have hmodify : (lines e.pane.buffer).modify n (formatIndented {}) =
      (lines e.pane.buffer).set n (formatIndented {} (lines e.pane.buffer)[n]) := by
    rw [List.modify_eq_set, hline, Option.getD_some]
  rw [formatLineAt_eq hline, hmodify]
  split
  next hsame =>
    rw [hsame, List.set_getElem_self]
    exact ⟨rfl, rfl, rfl⟩
  next =>
    exact Pane.writeLine_other hinside (notMem_formatIndented (by decide) hunbroken) hn hother

/-- There was one call, for the line that enter ended. That line is formatted; the other lines and
the place of the cursor are as enter left them. -/
def EndedLineFormatted (m entered settled : Machine (Editor β)) : Prop :=
  let row := row m.world.pane.buffer
  let b := entered.world.pane.buffer
  let b' := settled.world.pane.buffer
  settled.calls = .line row :: m.calls ∧
    lines b' = (lines b).modify row (formatIndented {}) ∧
    TextBuffer.row b' = TextBuffer.row b ∧ col b' = col b

theorem Sound.endedLineFormatted_iff (h : Sound known m) (hm : Attends m)
    (hms : m.world.delay ≤ ms) :
    let entered := (Editor.press m .enter).state
    EndedLineFormatted m entered (entered.advance (setupOf entered) ms) ↔
      m.world.pane.lastRow = row m.world.pane.buffer := by
  intro entered
  obtain ⟨hcalls, hbuffer⟩ := h.enter_settled hm hms
  obtain ⟨-, -, -, dirty, hworld⟩ := h.enter hm
  have hinside := h.wired.inside
  have hrow := TextBuffer.row_begun hinside
  rw [lineCall_lastNotice] at hcalls
  constructor
  · rintro ⟨hone, -⟩
    rw [hcalls] at hone
    split at hone
    · cases hone
    · obtain ⟨hhead, -⟩ := List.cons.inj hone
      exact Int.ofNat.inj (Call.line.inj hhead)
  · intro hknown
    have hother : row (begun m.world.pane.buffer) ≠ m.world.pane.lastRow := by omega
    have hleft : entered.world.pane.buffer = begun m.world.pane.buffer := by rw [hworld]
    have hnewline := TextBuffer.newline_inside hinside
    have hbelow : row (begun m.world.pane.buffer) < (lines (begun m.world.pane.buffer)).length :=
      TextBuffer.row_lt hnewline
    rw [if_neg hother, hknown] at hcalls
    rw [lastNotice_of_ne hother, hknown] at hbuffer
    refine ⟨hcalls, ?_⟩
    rw [hbuffer]
    refine buffer_formatLineAt (e := entered.world) ?_ ?_ ?_ <;> rw [hleft]
    · exact hnewline
    · omega
    · omega

/-- In an editor that was opened, whatever libraries its text and its configuration are kept with
and whatever reached it since, enter is pressed and the delay passes, while the scheduler is
attached, idle and not disposed of and the switches let the commit through. Then a line with the
margin of the present one is begun, and there is exactly one call, for the row that the pane took
for the cursor's, or for the new line if that is the row. So the line that enter ended is the one
that is formatted exactly if the pane knew the cursor's row. It did unless a change of the text had
brought the cursor into another row without moving it. -/
theorem enter_formats_iff {fs : Files} {configPath : Except FileFault Path} {path : Path}
    {given : Option Settings} {yaml : Yaml.Library} {ws : List Warning} {e : Editor β}
    (hopen : open? fs configPath path given yaml = (ws, .ok e)) (inputs : List Input)
    (hm : Attends (course inputs (opened ws e)))
    (hms : (course inputs (opened ws e)).world.delay ≤ ms) :
    let m := course inputs (opened ws e)
    let p := m.world.pane
    let pressed := press m .enter
    let entered := pressed.state
    let b := entered.world.pane.buffer
    let settled := entered.advance (setupOf entered) ms
    pressed.result = .ok () ∧
      (text b = (text p.buffer).take (pos p.buffer) ++ TextBuffer.margin p.buffer ++
          (text p.buffer).drop (pos p.buffer) ∧
        pos b = pos p.buffer + (TextBuffer.margin p.buffer).length) ∧
      settled.calls =
        (if row p.buffer + 1 = p.lastRow then .current else .line p.lastRow) :: m.calls ∧
      (EndedLineFormatted m entered settled ↔ p.lastRow = row p.buffer) ∧
      (Attentive inputs (opened ws e) → p.lastRow = row p.buffer) := by
  intro m p pressed entered b settled
  have h : Sound (Attentive inputs (opened ws e)) m := sound_course hopen inputs
  have hinside := h.wired.inside
  obtain ⟨-, -, -, dirty, hworld⟩ := h.enter hm
  obtain ⟨hcalls, -⟩ := h.enter_settled hm hms
  rw [lineCall_lastNotice, TextBuffer.row_begun hinside] at hcalls
  have hbuffer : b = begun p.buffer := congrArg (·.pane.buffer) hworld
  refine ⟨rfl, ?_, hcalls, h.endedLineFormatted_iff hm hms,
    fun hattentive => h.wired.row hattentive hm.disposed⟩
  rw [hbuffer]
  exact ⟨LawfulTextBuffer.text_newline _ hinside, LawfulTextBuffer.pos_newline _ hinside⟩

/-! ## A task in a new file -/

/-- A file that does not exist yet, just opened. -/
def newFile : Editor :=
  { pane := .ofText [] 0
    files := {}
    configPath := .ok (.ofText "config".toList)
    path := .ofText "new.md".toList
    loaded := { lines := [[]] }
    delay := 300 }

/-- The run for the file that was entered is over, and a task is typed. -/
def typed : List Input :=
  [.appear, .pass 300, .step, .step, .change "- [ ]  x".toList 8]

theorem attends_typed : Attends (course typed (opened [] newFile)) := by
  constructor <;> decide +kernel

theorem enter_formats_typed :
    let m := course typed (opened [] newFile)
    let entered := (press m .enter).state
    Attends m ∧ m.world.delay ≤ 300 ∧
      EndedLineFormatted m entered (entered.advance (setupOf entered) 300) := by
  intro m entered
  have hopen : open? {} newFile.configPath newFile.path none = ([], .ok newFile) := rfl
  have hms : m.world.delay ≤ 300 := by decide +kernel
  have hattentive : Attentive typed (opened [] newFile) :=
    ⟨id, id, id, id, fun hslips => absurd hslips.1 (by decide +kernel), trivial⟩
  obtain ⟨-, -, -, hformatted, hknown⟩ := enter_formats_iff hopen typed attends_typed hms
  exact ⟨attends_typed, hms, hformatted.mpr (hknown hattentive)⟩

/-- Enter is pressed, the line is formatted, and then both are taken back. The cursor comes back to
where it is, counted from the start of the text, and to the row above. -/
def takenBack : List Input :=
  typed ++ [.press .enter, .pass 300, .step, .step, .change "- [ ]  x".toList 8]

/-- When enter is pressed again the line that it ends is left as it is. -/
theorem takenBack_not_formatted :
    open? {} newFile.configPath newFile.path none = ([], .ok newFile) ∧
      let m := course takenBack (opened [] newFile)
      let entered := (press m .enter).state
      Attends m ∧ m.world.delay ≤ 300 ∧
        ¬EndedLineFormatted m entered (entered.advance (setupOf entered) 300) := by
  have hopen : open? {} newFile.configPath newFile.path none = ([], .ok newFile) := rfl
  refine ⟨hopen, ?_⟩
  intro m entered
  have hm : Attends m := by constructor <;> decide +kernel
  have hrow : m.world.pane.lastRow ≠ row m.world.pane.buffer := by decide +kernel
  have hms : m.world.delay ≤ 300 := by decide +kernel
  have h : Sound _ m := sound_course hopen takenBack
  exact ⟨hm, hms, mt (h.endedLineFormatted_iff hm hms).mp hrow⟩

end Editor

end TaskLine
