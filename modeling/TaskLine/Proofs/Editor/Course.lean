import TaskLine.Editor.Session
import TaskLine.Proofs.Editor.Barrier
import TaskLine.Proofs.Schedule.Keeping
import TaskLine.Proofs.Schedule.LineRun

/-!
# Courses of an editor

An editor is opened, and from then on inputs reach it: keys, changes of the text, files that change
under it, calls of its scheduler, steps of the loop and the passing of time (`Input`). Whatever the
course, the accounts of the scheduler are in order and the cursor is in the text, and as long as the
scheduler is not disposed of the pane hears of cursor moves and the scheduler listens to it if it is
attached (`sound_course`).

One thing can get lost. The pane learns of the cursor's row when the cursor moves. If the text is
changed in such a way that the cursor stays where it is, counted from the start, but is in another
row by that, the pane still takes the old row for the cursor's (`Slips`). As long as that has not
happened the pane knows the row.
-/

namespace TaskLine

open TextBuffer (text pos row)

/-! ## What writing leaves of a pane -/

/-- A new line leaves the cursor in the text. -/
theorem TextBuffer.newline_inside {β : Type} [TextBuffer β] [LawfulTextBuffer β] {b : β}
    (hb : pos b ≤ (text b).length) :
    pos (newline b).buffer ≤ (text (newline b).buffer).length := by
  rw [LawfulTextBuffer.text_newline b hb, LawfulTextBuffer.pos_newline b hb]
  simp only [List.length_append, List.length_take, List.length_drop]
  omega

theorem TextBuffer.row_setAnchor {β : Type} [TextBuffer β] [LawfulTextBuffer β]
    (anchor : Option Int) (b : β) : row (setAnchor anchor b) = row b := by
  rw [row, row, LawfulTextBuffer.text_setAnchor, LawfulTextBuffer.pos_setAnchor]

namespace Pane

variable {β : Type} [TextBuffer β] {p q : Pane β} {known : Prop}

/-- A pane but for what it is told about progress. -/
def content (p : Pane β) : Pane β := { p with progress := none, redraws := 0 }

/-- What is left of a pane when it was worked on: whether it hears of cursor moves and who listens
to it. The cursor is in the text, and the pane knows its row, if it is to. -/
structure Kept (known : Prop) (p q : Pane β) : Prop where
  inside : pos q.buffer ≤ (text q.buffer).length
  idle : q.mutating = false
  opened : q.opened = p.opened
  listeners : q.listeners = p.listeners
  row : known → q.lastRow = row q.buffer

theorem kept_content : Kept known p q.content ↔ Kept known p q :=
  ⟨fun h => ⟨h.inside, h.idle, h.opened, h.listeners, h.row⟩,
    fun h => ⟨h.inside, h.idle, h.opened, h.listeners, h.row⟩⟩

theorem Kept.mono {known' : Prop} (h : Kept known p q) (hknown : known' → known) :
    Kept known' p q :=
  ⟨h.inside, h.idle, h.opened, h.listeners, fun hknown' => h.row (hknown hknown')⟩

/-- The user gives the buffer another text, with the cursor at a position brought into it. -/
def change (s : Text) (i : Nat) (p : Pane β) : Pane β × Option Notice :=
  p.become (TextBuffer.put s (min i s.length) p.buffer)

/-- The cursor stays where it is, counted from the start of the text, but not in its row. -/
def Slips (b : β) (p : Pane β) : Prop := pos b = pos p.buffer ∧ row b ≠ row p.buffer

theorem Kept.become {e : Edited β} (he : e.Announces p.buffer)
    (hinside : pos e.buffer ≤ (text e.buffer).length) (hidle : p.mutating = false)
    (hopened : known → p.opened = true) (hrow : known → p.lastRow = TextBuffer.row p.buffer) :
    Kept (known ∧ ¬Slips e.buffer p) p (p.become e).1 := by
  obtain ⟨lastRow, dirty, hbecome⟩ := exists_become e p
  refine ⟨by rw [hbecome]; exact hinside, by rw [hbecome]; exact hidle, by rw [hbecome],
    by rw [hbecome], fun ⟨hknown, hstays⟩ => ?_⟩
  rw [become_eq (hopened hknown) hidle he]
  split
  next hpos =>
    exact (hrow hknown).trans (not_not.mp fun hne => hstays ⟨hpos, fun heq => hne heq.symm⟩)
  next => rfl

variable [LawfulTextBuffer β]

theorem Kept.write (h : Kept known p q) (lines : List Text) (r : Nat) (col : Int)
    (anchor : Option Int) : Kept known p (q.write lines r col anchor).1 := by
  obtain ⟨b, dirty, htext, hpos, hwrite⟩ := exists_write lines r col anchor q
  rw [hwrite]
  refine ⟨?_, rfl, h.opened, h.listeners, fun _ => rfl⟩
  rw [htext, hpos]
  exact LawfulTextBuffer.indexOf_le ..

theorem Kept.answer (h : Kept known p q) (request : WriteRequest) :
    Kept known p (q.answer request).1 := by
  obtain hnone | ⟨lines, r, col, anchor, hwrite⟩ := answer_cases request q
  · rw [hnone]
    exact h
  · rw [hwrite]
    exact h.write lines r col anchor

theorem Kept.setAnchor (h : Kept known p q) (anchor : Option Int) :
    Kept known p (q.setAnchor anchor) := by
  refine ⟨?_, h.idle, h.opened, h.listeners,
    fun hknown => (h.row hknown).trans (TextBuffer.row_setAnchor anchor q.buffer).symm⟩
  show pos (TextBuffer.setAnchor anchor q.buffer) ≤
    (text (TextBuffer.setAnchor anchor q.buffer)).length
  rw [LawfulTextBuffer.pos_setAnchor, LawfulTextBuffer.text_setAnchor]
  exact h.inside

end Pane

/-- A listener that subscribes is told last. -/
theorem Listeners.tagsOf_subscribe (event event' : HostEvent) (tag : Text) (l : Listeners) :
    (l.subscribe event tag).tagsOf event' =
      l.tagsOf event' ++ if event = event' then [tag] else [] := by
  rw [tagsOf, tagsOf, subscribe, List.filter_append, List.map_append]
  split <;> simp [*]

namespace Editor

open Machine (Aloof Alike Worked)

variable {β : Type} [TextBuffer β] {m m' : Machine (Editor β)} {known : Prop} {d : Nat} {n : Notice}

theorem discreet_formatter :
    Formatter.Discreet (formatter : Formatter (Editor β)) fun e => e.pane.content where
  clock _ := rfl
  host := by
    have hpane : Host.Discreet (Pane.host : Host (Pane β)) Pane.content :=
      { start := by rintro _ ⟨⟩ _ _ _; rfl
        update := by rintro _ ⟨⟩ _ _ _; rfl
        finish := by rintro _ ⟨⟩ _; rfl }
    exact hpane.within (·.pane) (fun pane (e : Editor β) => { e with pane }) fun _ _ => rfl

/-- What a run does to the pane are writes. -/
theorem keeps_formatter [LawfulTextBuffer β] (known : Prop) (p : Pane β) :
    Formatter.Keeps (formatter : Formatter (Editor β)) fun e => Pane.Kept known p e.pane where
  discreet := by
    have h := discreet_formatter.map (Pane.Kept known p)
    simpa only [Pane.kept_content] using h
  line := by
    rintro _ ⟨⟩ n line e he
    exact he.answer (.line n line)
  selecting := by
    rintro _ ⟨⟩ n line sel e he
    exact he.answer (.selecting n line sel)
  all := by
    rintro _ ⟨⟩ lines e he
    exact he.answer (.all lines)

/-! ## What the scheduler and the pane know of each other -/

/-- The cursor is in the text. As long as the scheduler is not disposed of the pane hears of cursor
moves, and the scheduler listens to it if it is attached. The pane knows the cursor's row, if it is
to. -/
structure Wired (known : Prop) (m : Machine (Editor β)) : Prop where
  inside : pos m.world.pane.buffer ≤ (text m.world.pane.buffer).length
  idle : m.world.pane.mutating = false
  opened : m.disposed = false → m.world.pane.opened = true
  listens : m.disposed = false → ∀ event, m.world.pane.listeners.tagsOf event =
    if m.attached then [event.name] else []
  row : known → m.disposed = false → m.world.pane.lastRow = row m.world.pane.buffer

theorem Wired.aloof (h : Wired known m) (ha : Aloof m m') : Wired known m' := by
  obtain ⟨hinside, hidle, hopened, hlistens, hrow⟩ := h
  rw [← ha.world, ← ha.disposed] at hopened hlistens hrow
  rw [← ha.world] at hinside hidle
  rw [← ha.attached] at hlistens
  exact ⟨hinside, hidle, hopened, hlistens, hrow⟩

/-- The pane was worked on. -/
theorem Wired.worked (h : Wired known m) {known' : Prop}
    (hw : Worked (fun e => Pane.Kept (known' ∧ m.disposed = false) m.world.pane e.pane) m m') :
    Wired known' m' := by
  have hkept := hw.world
  refine ⟨hkept.inside, hkept.idle, fun hd => ?_, fun hd event => ?_, fun hknown hd => ?_⟩
  · rw [hkept.opened]
    exact h.opened (hw.disposed ▸ hd)
  · rw [hkept.listeners, hw.attached]
    exact h.listens (hw.disposed ▸ hd) event
  · exact hkept.row ⟨hknown, hw.disposed ▸ hd⟩

theorem Wired.kept (h : Wired known m) :
    Pane.Kept (known ∧ m.disposed = false) m.world.pane m.world.pane :=
  ⟨h.inside, h.idle, rfl, rfl, fun ⟨hknown, hd⟩ => h.row hknown hd⟩

/-- When everything has ended only the cursor counts. -/
theorem wired_of_disposed (hd : m.disposed = true)
    (hpane : Pane.Kept False m.world.pane m.world.pane) : Wired known m := by
  have hover {P : Prop} (hnot : m.disposed = false) : P := by
    rw [hd] at hnot
    cases hnot
  exact ⟨hpane.inside, hpane.idle, hover, hover, fun _ => hover⟩

theorem Wired.dispose (h : Wired known m) : Wired known (m.dispose (setup d)) := by
  have hkept : Pane.Kept False m.world.pane m.world.pane := h.kept.mono False.elim
  exact wired_of_disposed (Machine.disposed_dispose m)
    (Machine.world_dispose (P := fun e : Editor β => Pane.Kept False e.pane e.pane)
      (fun _ _ he => ⟨he.inside, he.idle, rfl, rfl, False.elim⟩) hkept)

theorem Wired.tell (h : Wired known m) (w : Waiter) : Wired known (m.tell (setup d) w) := by
  cases w with
  | observer n => exact ⟨h.inside, h.idle, h.opened, h.listens, h.row⟩
  | leaver =>
      have hended : Wired known (m.dispose (setup d)) := h.dispose
      have hover : (m.dispose (setup d)).disposed = true := Machine.disposed_dispose m
      exact wired_of_disposed hover ⟨hended.inside, hended.idle, rfl, rfl, False.elim⟩

theorem Wired.perform [LawfulTextBuffer β] (h : Wired known m) (j : Job) :
    Wired known (m.perform (setup d) j) := by
  cases j with
  | run id =>
      rw [Machine.perform]
      split
      next t _ => exact h.worked ((keeps_formatter _ _).advanceRun (c := setup d) h.kept)
      next => exact h
  | expire id =>
      rw [Machine.perform]
      split
      next t _ =>
        have hfired : Aloof m { m with
            armed := none, timers := m.timers.filter fun u => u.id != id } := ⟨rfl, rfl, rfl⟩
        exact h.aloof (hfired.trans Machine.aloof_dispatch)
      next => exact h
  | ask w =>
      rw [Machine.perform]
      split
      · exact h.tell w
      · exact h.aloof ⟨rfl, rfl, rfl⟩
  | wake w => exact h.tell w

theorem Wired.step [LawfulTextBuffer β] (h : Wired known m) : Wired known (m.step (setup d)) := by
  have hperformed (js : List Job) (m : Machine (Editor β)) (hm : Wired known m) :
      Wired known (js.foldl (Machine.perform (setup d)) m) := by
    induction js generalizing m with
    | nil => exact hm
    | cons j js ih => exact ih _ (hm.perform j)
  exact hperformed _ _ (h.aloof ⟨rfl, rfl, rfl⟩)

theorem Wired.attach (h : Wired known m) : Wired known (m.attach (setup d) true) := by
  by_cases hnothing : (m.attached || m.disposed) = true
  · rw [Machine.attach, if_pos hnothing]
    exact h
  · have hnew : m.attached = false ∧ m.disposed = false := by simpa using hnothing
    rw [Machine.attach, if_neg hnothing]
    have hlistens (event : HostEvent) : m.world.pane.listeners.tagsOf event = [] := by
      rw [h.listens hnew.2, hnew.1]
      rfl
    refine ⟨h.inside, h.idle, h.opened, fun _ event => ?_, h.row⟩
    show Listeners.tagsOf event (((m.world.pane.listeners.subscribe _ _).subscribe _ _).subscribe
      _ _) = [event.name]
    simp only [Listeners.tagsOf_subscribe, hlistens]
    cases event <;> rfl

/-! ## Inputs -/

/-- Something that reaches an editor. -/
inductive Input where
  | appear
  | press (key : Key)
  /-- The user changes the text, moves the cursor, or both at one go: they type, delete, paste or
  take something back. -/
  | change (s : Text) (i : Nat)
  | select (anchor : Option Int)
  | configure (name given : Text)
  /-- The files change under the editor. -/
  | refile (files : Files)
  | attach
  | trigger (asked : Except RequestFault Request)
  | triggerNow (asked : Except RequestFault Request)
  | dispose
  | wait (observer : Nat)
  | pass (ms : Nat)
  | step

/-- The editor after an input. -/
def after (m : Machine (Editor β)) : Input → Machine (Editor β)
  | .appear => appear m
  | .press key => (press m key).state
  | .change s i => edit (Pane.change s i) m
  | .select anchor => { m with world := { m.world with pane := m.world.pane.setAnchor anchor } }
  | .configure name given => (configure name given m).state
  | .refile files => { m with world := { m.world with files } }
  | .attach => m.attach (setupOf m) true
  | .trigger asked => (m.trigger (setupOf m) true asked).state
  | .triggerNow asked => (m.triggerNow (setupOf m) true asked).state
  | .dispose => m.dispose (setupOf m)
  | .wait observer => m.wait (.observer observer)
  | .pass ms => { m with now := m.now + ms }
  | .step => m.step (setupOf m)

/-- The editor after some inputs, one after the other. -/
def course (inputs : List Input) (m : Machine (Editor β)) : Machine (Editor β) :=
  inputs.foldl after m

/-- An editor that was just opened, with the warnings that came with it. -/
def opened (ws : List Warning) (e : Editor β) : Machine (Editor β) :=
  ws.foldl (fun m w => m.warn w) { world := e }

/-- An input by which the cursor gets into another row without being moved. -/
def Slips (m : Machine (Editor β)) : Input → Prop
  | .change s i =>
    m.world.pane.Slips (TextBuffer.put s (min i s.length) m.world.pane.buffer).buffer
  | _ => False

/-- No input of a course is one by which the cursor gets into another row without being moved. -/
def Attentive : List Input → Machine (Editor β) → Prop
  | [], _ => True
  | i :: is, m => ¬Slips m i ∧ Attentive is (after m i)

/-- The accounts of the scheduler are in order, and the pane is as it is to be. -/
structure Sound (known : Prop) (m : Machine (Editor β)) : Prop where
  regular : Moment.Regular ⟨m, []⟩
  wired : Wired known m

theorem Sound.mono {known' : Prop} (h : Sound known m) (hknown : known' → known) :
    Sound known' m :=
  ⟨h.regular, h.wired.inside, h.wired.idle, h.wired.opened, h.wired.listens,
    fun hknown' => h.wired.row (hknown hknown')⟩

theorem Sound.alike (h : Sound known m) (halike : Alike m m') (ha : Aloof m m') :
    Sound known m' := ⟨h.regular.alike halike, h.wired.aloof ha⟩

theorem Sound.notice (h : Sound known m) (n : Notice) :
    Sound known (m.notice (setup d) true n) :=
  ⟨h.regular.after (c := setup d) (a := .notice true n) rfl,
    h.wired.aloof (Machine.aloof_notice ..)⟩

theorem Sound.notify (h : Sound known m) (n : Notice) : Sound known (notify n m) := by
  have hnotices (tags : List Text) (m : Machine (Editor β)) (hm : Sound known m) :
      Sound known (tags.foldl (fun m _ => m.notice (setupOf m) true n) m) := by
    induction tags generalizing m with
    | nil => exact hm
    | cons tag tags ih => exact ih _ (hm.notice n)
  exact hnotices _ m h

/-- Another pane takes the place of the present one. -/
theorem Sound.put (h : Sound known m) {known' : Prop} {e : Editor β}
    (he : Pane.Kept (known' ∧ m.disposed = false) m.world.pane e.pane) :
    Sound known' { m with world := e } :=
  ⟨h.regular.alike (Machine.alike_world e m), h.wired.worked ⟨he, rfl, rfl⟩⟩

theorem edit_eq (f : Pane β → Pane β × Option Notice) (m : Machine (Editor β)) :
    let edited := { m with world := { m.world with pane := (f m.world.pane).1 } }
    edit f m = match (f m.world.pane).2 with
      | some n => notify n edited
      | none => edited := rfl

/-- An editor opens with the cursor at the start of the text. -/
theorem exists_of_open {fs : Files} {configPath : Except FileFault Path} {path : Path}
    {given : Option Settings} {yaml : Yaml.Library} {ws : List Warning} {e : Editor β}
    (hopen : open? fs configPath path given yaml = (ws, .ok e)) :
    ∃ text, e.pane = .ofText text 0 := by
  obtain ⟨-, hread⟩ := Prod.mk.inj hopen
  simp only [bind, Except.bind] at hread
  split at hread
  · cases hread
  next loaded _ =>
    split at hread
    · cases hread
    · split at hread
      · cases hread
      · exact ⟨Text.join ['\n'] loaded.lines, by rw [← Except.ok.inj hread]⟩

/-- The user changes the buffer. -/
theorem Sound.become (h : Sound known m) {e : Edited β} (he : e.Announces m.world.pane.buffer)
    (hinside : pos e.buffer ≤ (text e.buffer).length) :
    Sound (known ∧ ¬m.world.pane.Slips e.buffer) (edit (Pane.become e) m) := by
  have hbecome : Pane.Kept ((known ∧ m.disposed = false) ∧ ¬m.world.pane.Slips e.buffer)
      m.world.pane (m.world.pane.become e).1 :=
    .become he hinside h.wired.idle (fun ⟨_, hd⟩ => h.wired.opened hd)
      fun ⟨hknown, hd⟩ => h.wired.row hknown hd
  have hput : Sound (known ∧ ¬m.world.pane.Slips e.buffer)
      { m with world := { m.world with pane := (m.world.pane.become e).1 } } :=
    h.put (hbecome.mono fun ⟨⟨hknown, hslips⟩, hd⟩ => ⟨⟨hknown, hd⟩, hslips⟩)
  rw [edit_eq]
  split
  · exact hput.notify _
  · exact hput

theorem Sound.setMessage (h : Sound known m) (s : Text) : Sound known (setMessage s m) :=
  h.put ⟨h.wired.inside, h.wired.idle, rfl, rfl, fun ⟨hknown, hd⟩ => h.wired.row hknown hd⟩

theorem Sound.triggerNow (h : Sound known m) (asked : Except RequestFault Request) :
    Sound known (m.triggerNow (setup d) true asked).state :=
  ⟨h.regular.after (c := setup d) (a := .triggerNow true asked) rfl,
    h.wired.aloof (Machine.aloof_triggerNow ..)⟩

theorem Sound.formatNow (h : Sound known m) (scope : Scope) :
    Sound known (formatNow scope m).state := by
  have htriggered : Sound known (m.triggerNow (setupOf m) true _).state :=
    h.triggerNow (.ok { reason := .manual, scope })
  rw [Editor.formatNow]
  split <;> rename_i heq <;> rw [heq] at htriggered
  · exact htriggered
  · exact htriggered.setMessage _
  · exact htriggered

theorem Sound.save (h : Sound known m) : Sound known (save m).state := by
  have hstored (files : Files) : Sound known { m with world := { m.world with files } } :=
    h.put h.wired.kept
  rw [Editor.save]
  dsimp only
  split
  · refine Sound.setMessage (Sound.put (hstored _) ?_) _
    exact ⟨h.wired.inside, h.wired.idle, rfl, rfl, fun ⟨hknown, hd⟩ => h.wired.row hknown hd⟩
  · exact hstored _
  · refine Sound.setMessage ?_ _
    exact (hstored _).alike (Machine.alike_warn _ _) ⟨rfl, rfl, rfl⟩

theorem Sound.configure (h : Sound known m) (name given : Text) :
    Sound known (configure name given m).state := by
  have hwarned (ws : List Warning) : Sound known (ws.foldl (fun m w => m.warn w) m) := by
    obtain ⟨warnings, heq⟩ := Machine.foldl_warn ws m
    rw [heq]
    exact h.alike (Machine.alike_warnings _ _) ⟨rfl, rfl, rfl⟩
  exact (hwarned _).put (hwarned _).wired.kept

variable [LawfulTextBuffer β]

theorem Sound.newline (h : Sound known m) : Sound known (edit Pane.newline m) := by
  have hinside := h.wired.inside
  have hmoves : ¬m.world.pane.Slips (TextBuffer.newline m.world.pane.buffer).buffer := by
    rintro ⟨hpos, -⟩
    rw [LawfulTextBuffer.pos_newline _ hinside] at hpos
    simp [TextBuffer.margin] at hpos
  have hedited : Sound _ (edit Pane.newline m) := h.become
    (LawfulTextBuffer.announces_newline _ hinside) (TextBuffer.newline_inside hinside)
  exact hedited.mono fun hknown => ⟨hknown, hmoves⟩

theorem Sound.change (h : Sound known m) (s : Text) (i : Nat) :
    Sound (known ∧ ¬Slips m (.change s i)) (edit (Pane.change s i) m) := by
  have hi : min i s.length ≤ s.length := Nat.min_le_right ..
  refine h.become (LawfulTextBuffer.announces_put _ _ _ hi) ?_
  rw [LawfulTextBuffer.text_put _ _ _ hi, LawfulTextBuffer.pos_put _ _ _ hi]
  exact hi

/-- No key moves the cursor into another row without the pane being told. -/
theorem Sound.press (h : Sound known m) (key : Key) : Sound known (press m key).state := by
  cases key with
  | enter => exact (h.notify .lineCommitted).newline
  | formatFile | formatLine => exact h.formatNow _
  | save => exact h.save
  | quit =>
      exact ⟨h.regular.after (c := setupOf m) (a := .wait .leaver) trivial,
        h.wired.aloof ⟨rfl, rfl, rfl⟩⟩

/-- Every input leaves an editor sound. -/
theorem Sound.after (h : Sound known m) (i : Input) : Sound (known ∧ ¬Slips m i) (after m i) := by
  have hcalled (a : Act (Editor β)) (ha : a.Available (setupOf m)) :
      Moment.Regular (Moment.after (setupOf m) ⟨m, []⟩ a) := h.regular.after ha
  have hany : ∀ {m' : Machine (Editor β)}, Sound known m' → Sound (known ∧ ¬Slips m i) m' :=
    fun hm' => hm'.mono And.left
  cases i with
  | change s i => exact h.change s i
  | appear =>
      have hattached : Sound known (m.attach (setupOf m) true) :=
        ⟨hcalled (.attach true) rfl, h.wired.attach⟩
      exact hany (hattached.notify .leafChanged)
  | press key => exact hany (h.press key)
  | select anchor => exact hany (h.put (h.wired.kept.setAnchor anchor))
  | configure name given => exact hany (h.configure name given)
  | refile files => exact hany (h.put h.wired.kept)
  | attach => exact hany ⟨hcalled (.attach true) rfl, h.wired.attach⟩
  | trigger asked =>
      exact hany ⟨hcalled (.trigger true asked) rfl, h.wired.aloof (Machine.aloof_trigger ..)⟩
  | triggerNow asked => exact hany (h.triggerNow asked)
  | dispose => exact hany ⟨hcalled .dispose trivial, h.wired.dispose⟩
  | wait observer =>
      exact hany ⟨hcalled (.wait (.observer observer)) trivial, h.wired.aloof ⟨rfl, rfl, rfl⟩⟩
  | pass ms => exact hany ⟨hcalled (.pass ms) trivial, h.wired.aloof ⟨rfl, rfl, rfl⟩⟩
  | step => exact hany ⟨h.regular.step, h.wired.step⟩

/-! ## Courses -/

theorem Sound.course {inputs : List Input} (h : Sound known m) :
    Sound (known ∧ Attentive inputs m) (course inputs m) := by
  induction inputs generalizing m known with
  | nil => exact h.mono And.left
  | cons i is ih =>
      exact (ih (h.after i)).mono fun ⟨hknown, hslips, hrest⟩ => ⟨⟨hknown, hslips⟩, hrest⟩

theorem sound_opened {fs : Files} {configPath : Except FileFault Path} {path : Path}
    {given : Option Settings} {yaml : Yaml.Library} {ws : List Warning} {e : Editor β}
    (hopen : open? fs configPath path given yaml = (ws, .ok e)) : Sound True (opened ws e) := by
  obtain ⟨text, hpane⟩ := exists_of_open hopen
  obtain ⟨warnings, hopened⟩ := Machine.foldl_warn ws { world := e }
  have hstart : Sound True { world := e } := by
    refine ⟨Moment.regular_start e, ?_, ?_, ?_, ?_, ?_⟩ <;> simp only [hpane]
    · show pos (TextBuffer.ofText text 0 : β) ≤ _
      rw [LawfulTextBuffer.pos_ofText text 0 (Nat.zero_le _)]
      exact Nat.zero_le _
    · rfl
    · exact fun _ => rfl
    · exact fun _ event => rfl
    · exact fun _ _ => rfl
  rw [opened, hopened]
  exact hstart.alike (Machine.alike_warnings _ _) ⟨rfl, rfl, rfl⟩

/-- Whatever reaches an editor that was opened, the accounts of its scheduler are in order, the
cursor is in the text, and the pane and the scheduler listen as they are to. The pane knows the
cursor's row unless the cursor got into another one without being moved. -/
theorem sound_course {fs : Files} {configPath : Except FileFault Path} {path : Path}
    {given : Option Settings} {yaml : Yaml.Library} {ws : List Warning} {e : Editor β}
    (hopen : open? fs configPath path given yaml = (ws, .ok e)) (inputs : List Input) :
    Sound (Attentive inputs (opened ws e)) (course inputs (opened ws e)) :=
  (sound_opened hopen).course.mono fun hattentive => ⟨trivial, hattentive⟩

end Editor

end TaskLine
