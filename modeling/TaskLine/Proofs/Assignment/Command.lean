import TaskLine.Proofs.Assignment.Chip
import TaskLine.Proofs.Assignment.Line
import TaskLine.Proofs.Formatter.Agreement
import TaskLine.Proofs.Reformatting
import TaskLine.Proofs.Replacing

/-!
# Assigning a line of a file

An order names a line of a file (`Surroundings.Targets`). When it has been carried out
(`Surroundings.Assigns`) the file has the same lines but for that one, and there the wrapper is read
in its slot. That takes more than a line to assign (`assigns_iff`). White space in the name and the
slug is written as it is, but collapses on the line: then the wrapper is not found, and nothing is
written. A line break in them would become one of the file. And where a `<` stands open in front of
the slot the wrapper is written and hidden behind it.
-/

namespace TaskLine

open Text (Blank Tidy Neat Unbroken)
open Markup (Template Emerges)

variable {s : Surroundings} {o : AssignOrder} {p : Path} {text line x : Text} {i : Nat}

/-! ## Looking for the wrapper -/

theorem Text.occurs_iff : Text.occurs x line = true ↔ x <:+: line := by
  have hfront : ∀ s, (Text.after? x s).isSome = true ↔ x <+: s := by
    intro s
    constructor
    · intro h
      obtain ⟨u, hu⟩ := Option.isSome_iff_exists.mp h
      exact ⟨u, (DateToken.eq_append_of_after? hu).symm⟩
    · rintro ⟨u, rfl⟩
      rw [DateToken.after?_append]
      rfl
  induction line with
  | nil => cases x <;> simp [Text.occurs, Text.find?]
  | cons c cs ih =>
      rw [List.infix_cons_iff, ← hfront, Text.occurs, Text.find?, iff_comm.mp ih]
      split
      · simp [*]
      · simp [*, Text.occurs]

theorem tidy_guardTag {s : Text} (h : Tidy s) : Tidy (Line.guardTag s) := by
  rw [Line.guardTag]
  split
  · obtain ⟨g, -, hs⟩ := Text.exists_trimRight_blank s
    rw [hs] at h
    exact Text.Tidy.append h.left_of_append (.singleton _) fun c hc => Text.trimRight_last hc
  · exact h

theorem tidy_formatLine {ov : Overrides} {task : Task} (h : Task.read? line = some task) :
    Tidy (formatLine ov line) := by
  rw [formatLine_of_some h, Pieces.write_eq]
  exact tidy_guardTag (Text.tidy_collapse _)

/-- What stands on a formatted task line behind the indentation is tidy. -/
theorem tidy_of_infix_formatIndented {frame : Frame} {ov : Overrides}
    (hread : Frame.read? line = some frame) {c : Char} (hc : Text.isSpace c = false)
    (h : c :: x <:+: formatIndented ov line) : Tidy (c :: x) := by
  obtain ⟨head, -, -, hbody⟩ := Frame.exists_read?_body hread
  have hblank : Blank (Line.indent line) := fun c hc => List.mem_takeWhile_imp hc
  have hbehind : c :: x <:+: formatLine ov (Line.body line) := by
    rw [formatIndented] at h
    generalize Line.indent line = g at h hblank
    induction g with
    | nil => exact h
    | cons d g ih =>
        rcases List.infix_cons_iff.mp h with hpre | hmid
        · obtain ⟨hd, -⟩ := List.cons_prefix_cons.mp hpre
          rw [hd, hblank d List.mem_cons_self] at hc
          cases hc
        · exact ih hmid fun e he => hblank e (List.mem_cons_of_mem d he)
  have htidy : Tidy (formatLine ov (Line.body line)) := tidy_formatLine (Frame.read?_task hbody)
  exact htidy.infix hbehind

/-! ## What is left -/

theorem InstanceId.solid {id : Text} (h : InstanceId id) : Solid id where
  ne_nil := h.ne_nil
  space hmem := by cases h.forall_mem _ hmem
  arrow hmem := by cases h.forall_mem _ hmem

/-- What stands in a slot holds no line break if the line holds none. -/
theorem Task.unbroken_at {task : Task} {slot : AssignmentSlot} {w : Text}
    (htask : Task.read? line = some task) (hline : Unbroken line)
    (hw : (task.slots.at slot).map (·.html) = some w) : Unbroken w := by
  obtain ⟨frame, hread, rfl⟩ := Option.map_eq_some_iff.mp htask
  obtain ⟨x, hx, rfl⟩ := Option.map_eq_some_iff.mp hw
  have hmem : x ∈ frame.task.slots.templates := by
    cases slot with
    | assignee =>
        have hx : frame.task.slots.assignee = some x := hx
        simp [Slots.templates, hx]
    | delegate =>
        have hx : frame.task.slots.delegate = some x := hx
        simp [Slots.templates, hx]
  rw [Text.unbroken_iff] at hline ⊢
  have hwrapper := List.mem_map_of_mem (f := Template.html) hmem
  exact ⟨Frame.not_infix_word hread (x := ['\n']) (by decide) hline.1 (.inl hwrapper),
    Frame.not_infix_word hread (x := ['\r']) (by decide) hline.2 (.inl hwrapper)⟩

namespace Surroundings

/-- The wrapper that an order is for. -/
def wrapper (s : Surroundings) (o : AssignOrder) : Text :=
  assignment s.instanceId o.member o.slug o.type o.state

/-- What becomes of the line of an order. -/
def assignedLine (s : Surroundings) (o : AssignOrder) (line : Text) : Text :=
  formatIndented (overridesOf o (s.wrapper o)) line

/-- An order for a task line of a file that can be written over, with an id for the wrapper that the
line knows nothing of. A delegate is for a task that has an assignee already. -/
structure Targets (s : Surroundings) (o : AssignOrder) (p : Path) (text : Text) (i : Nat)
    (line : Text) (task : Task) : Prop where
  path : (Path.ofText o.path).expand s.homes = .ok p
  files : s.files.Sound
  file : s.files.find p = .file (.text text)
  room : s.files.HasRoom p
  there : (Markdown.ofText text).lines[i]? = some line
  number : o.line = i + 1
  reads : Task.read? line = some task
  assignee : o.type.slot = .delegate → task.slots.assignee ≠ none
  instanceId : InstanceId s.instanceId
  fresh : ¬s.instanceId <:+: line

/-- The command ends well, and then these lines are read at the path. -/
def Leaves (s : Surroundings) (o : AssignOrder) (p : Path) (lines : List Text) : Prop :=
  ∃ printed files written, s.assign o = ⟨.exit 0 printed, files⟩ ∧
    files.find p = .file (.text written) ∧ (Markdown.ofText written).lines = lines

/-- The command ends well, and then the same lines are read at the path but for one: on that one
the wrapper stands in its slot. -/
def Assigns (s : Surroundings) (o : AssignOrder) (p : Path) (lines : List Text) (i : Nat) : Prop :=
  ∃ lines', s.Leaves o p lines' ∧ lines'.length = lines.length ∧
    (∀ j, j ≠ i → lines'[j]? = lines[j]?) ∧
    ∃ line task, lines'[i]? = some line ∧ Task.read? line = some task ∧
      (task.slots.at o.type.slot).map (·.html) = some (s.wrapper o)

theorem Leaves.unique {lines lines' : List Text} (h : s.Leaves o p lines)
    (h' : s.Leaves o p lines') : lines = lines' := by
  obtain ⟨_, files, written, hassign, hfind, rfl⟩ := h
  obtain ⟨_, files', written', hassign', hfind', rfl⟩ := h'
  obtain ⟨-, rfl⟩ := CommandResult.mk.inj (hassign.symm.trans hassign')
  rw [hfind] at hfind'
  cases hfind'
  rfl

variable {task : Task}

/-- The file is written if the wrapper is found on the line. -/
theorem Targets.assign_eq (h : s.Targets o p text i line task) :
    s.assign o =
      let payload := [member "path" (.text p.toText), member "line" (.int o.line),
        member "text" (.text (s.assignedLine o line))]
      if Text.occurs (s.wrapper o) (s.assignedLine o line) then
        s.store p { Markdown.ofText text with
            lines := (Markdown.ofText text).lines.set i (s.assignedLine o line) } fun s =>
          s.ok "assign".toList "Assignment updated".toList payload
      else s.answer "assign".toList "WARN".toList "Assignment not applied".toList payload 1 := by
  obtain ⟨hi, -⟩ := List.getElem?_eq_some_iff.mp h.there
  have hload : ∀ next, s.load "assign".toList o.path next = next p (Markdown.ofText text) := by
    intro next
    simp only [load, withPath, h.path, Files.hasFile, Files.read, h.file]
  have hindex : o.line - 1 = (i : Int) := by
    rw [h.number, Int.add_sub_cancel]
  have hdocument : (Document.ofLines (Markdown.ofText text).lines 0 none).lines =
      (Markdown.ofText text).lines := by
    have hne : (Markdown.ofText text).lines ≠ [] := List.ne_nil_of_length_pos (by omega)
    exact if_neg (by simpa using hne)
  obtain ⟨written, d, hformat, hlines⟩ := Formatter.exists_formatLineAt (f := formatter)
    Document.lines rfl rfl (fun _ _ => rfl)
    (fun n line d => ⟨rfl, Document.lines_replaceLine n line d⟩)
    (overridesOf o (s.wrapper o)) i (Document.ofLines (Markdown.ofText text).lines 0 none)
  rw [hdocument, List.modify_eq_set, h.there, Option.getD_some] at hlines
  have hat : (d.lineAt i).getD [] = s.assignedLine o line := by
    have hset : d.lineAt i = d.lines[i]? := rfl
    rw [hset, hlines, List.getElem?_set_self hi]
    rfl
  rw [assign, hload]
  dsimp only
  rw [hindex, if_pos ⟨Int.natCast_nonneg i, by exact_mod_cast hi⟩]
  rw [wrapper] at hformat
  rw [hformat]
  dsimp only
  rw [hat, hlines]
  rfl

theorem Targets.infix_of_leaves (h : s.Targets o p text i line task) {lines : List Text}
    (hleaves : s.Leaves o p lines) : s.wrapper o <:+: s.assignedLine o line := by
  obtain ⟨printed, files, written, hassign, -, -⟩ := hleaves
  rw [h.assign_eq] at hassign
  dsimp only at hassign
  split at hassign
  · exact Text.occurs_iff.mp ‹_›
  · cases hassign

theorem Targets.leaves_of_infix (h : s.Targets o p text i line task)
    (hmid : s.wrapper o <:+: s.assignedLine o line) (hne : s.assignedLine o line ≠ [])
    (hunbroken : Unbroken (s.assignedLine o line)) :
    s.Leaves o p ((Markdown.ofText text).lines.set i (s.assignedLine o line)) := by
  have hsound := (Markdown.sound_ofText text).set (i := i) hunbroken hne
  obtain ⟨files, hreplace, hfind⟩ := h.files.find_replace h.file h.room _
  have hassign := h.assign_eq
  dsimp only at hassign
  rw [if_pos (Text.occurs_iff.mpr hmid), store, hreplace] at hassign
  exact ⟨_, files, _, hassign, hfind, hsound.lines_ofText_text⟩

/-- A neat wrapper stands on the line as it is, with nothing solid around it that was not there
before. -/
theorem Targets.exists_assignedLine_eq (h : s.Targets o p text i line task)
    (hneat : Neat (s.wrapper o)) :
    ∃ k b y, s.assignedLine o line = k ++ (task.ahead o.type.slot ++ (s.wrapper o ++ b)) ∧
      Line.Leads k y ∧
      ∀ x, Solid x → ¬x <:+: line → ¬x <:+: k ++ task.ahead o.type.slot ∧ ¬x <:+: b := by
  obtain ⟨frame, hread, hframe⟩ := Option.map_eq_some_iff.mp h.reads
  obtain rfl : frame.task = task := hframe
  obtain ⟨k, b, hwritten, hleads, hlacks⟩ := exists_formatIndented_eq hread
    (Assignment.closed_assignment h.instanceId _ _ _ _) hneat.tidy h.assignee
  exact ⟨k, b, frame.rest, hwritten, hleads, hlacks⟩

theorem Targets.infix_of_neat (h : s.Targets o p text i line task) (hneat : Neat (s.wrapper o)) :
    s.wrapper o <:+: s.assignedLine o line := by
  obtain ⟨k, b, -, hwritten, -, -⟩ := h.exists_assignedLine_eq hneat
  exact ⟨k ++ task.ahead o.type.slot, b, by rw [hwritten]; simp⟩

theorem Targets.unbroken_of_neat (h : s.Targets o p text i line task) (hneat : Neat (s.wrapper o)) :
    Unbroken (s.assignedLine o line) := by
  obtain ⟨k, b, -, hwritten, -, hlacks⟩ := h.exists_assignedLine_eq hneat
  have hline := (Markdown.sound_ofText text).unbroken line (List.mem_of_getElem? h.there)
  obtain ⟨hnl, hcr⟩ := Text.unbroken_iff.mp hline
  obtain ⟨hnl, hnl'⟩ := hlacks ['\n'] (by decide) hnl
  obtain ⟨hcr, hcr'⟩ := hlacks ['\r'] (by decide) hcr
  rw [hwritten, ← List.append_assoc]
  exact List.forall_mem_append.mpr ⟨Text.unbroken_iff.mpr ⟨hnl, hcr⟩,
    List.forall_mem_append.mpr ⟨hneat.unbroken, Text.unbroken_iff.mpr ⟨hnl', hcr'⟩⟩⟩

/-- The id of the wrapper tells it from whatever else is found on the line. -/
theorem Targets.slot_iff_of_neat (h : s.Targets o p text i line task) (hneat : Neat (s.wrapper o)) :
    (∃ task', Task.read? (s.assignedLine o line) = some task' ∧
        (task'.slots.at o.type.slot).map (·.html) = some (s.wrapper o)) ↔
      Emerges (task.ahead o.type.slot) ∧ ∀ w ∈ Markup.wrappers (task.ahead o.type.slot),
        (Template.read w).place ≠ o.type.slot.place := by
  have hid := h.instanceId
  obtain ⟨k, b, _, hwritten, hleads, hlacks⟩ := h.exists_assignedLine_eq hneat
  obtain ⟨hfront, hback⟩ := hlacks s.instanceId hid.solid h.fresh
  rw [hwritten]
  exact exists_at_iff hleads (Assignment.closed_assignment hid _ _ _ _)
    (Assignment.spans_assignment hid _ _ _ _) (Assignment.place_assignment hid _ _ _ _)
    (task.head?_ahead _) hid.solid (Assignment.id_infix_assignment hid _ _ _ _) hfront hback

/-- An order for a task line is carried out exactly if the name and the slug have neither a line
break nor white space beside other white space in them, the scanner emerges from what is written in
front of the slot, and it has found no other wrapper for the slot there. -/
theorem assigns_iff (h : s.Targets o p text i line task) :
    s.Assigns o p (Markdown.ofText text).lines i ↔
      Neat (Text.trim o.member) ∧ Neat (Text.trim o.slug) ∧ Emerges (task.ahead o.type.slot) ∧
        ∀ w ∈ Markup.wrappers (task.ahead o.type.slot),
          (Template.read w).place ≠ o.type.slot.place := by
  obtain ⟨hi, -⟩ := List.getElem?_eq_some_iff.mp h.there
  obtain ⟨frame, hread, -⟩ := Option.map_eq_some_iff.mp h.reads
  obtain ⟨cs, hcs, -⟩ :=
    (Assignment.closed_assignment h.instanceId o.member o.slug o.type o.state).exists_ends
  have hwrapper : s.wrapper o = '<' :: cs := hcs
  have hmember : Neat (s.wrapper o) ↔ Neat (Text.trim o.member) ∧ Neat (Text.trim o.slug) :=
    Assignment.neat_assignment h.instanceId _ _ _ _
  have hcarried : Neat (s.wrapper o) → s.Leaves o p
      ((Markdown.ofText text).lines.set i (s.assignedLine o line)) := by
    intro hneat
    have hmid := h.infix_of_neat hneat
    refine h.leaves_of_infix hmid ?_ (h.unbroken_of_neat hneat)
    intro hnil
    rw [hnil, List.infix_nil, hwrapper] at hmid
    cases hmid
  rw [← and_assoc, ← hmember]
  constructor
  · rintro ⟨lines', hleaves, -, -, line', task', hline', htask', hslot⟩
    have hneat : Neat (s.wrapper o) := by
      have hmid := h.infix_of_leaves hleaves
      refine ⟨?_, Task.unbroken_at htask' ?_ hslot⟩
      · rw [hwrapper] at hmid ⊢
        exact tidy_of_infix_formatIndented hread (by decide) hmid
      · obtain ⟨_, _, written, -, -, rfl⟩ := hleaves
        exact (Markdown.sound_ofText written).unbroken line' (List.mem_of_getElem? hline')
    rw [hleaves.unique (hcarried hneat), List.getElem?_set_self hi] at hline'
    obtain rfl := Option.some.inj hline'
    exact ⟨hneat, (h.slot_iff_of_neat hneat).mp ⟨task', htask', hslot⟩⟩
  · rintro ⟨hneat, hfound⟩
    obtain ⟨task', htask', hslot⟩ := (h.slot_iff_of_neat hneat).mpr hfound
    refine ⟨_, hcarried hneat, List.length_set, fun j hj => List.getElem?_set_ne hj.symm, ?_⟩
    exact ⟨_, task', List.getElem?_set_self hi, htask', hslot⟩

/-- A directory with one file, and in that file a task. -/
def notebook : Surroundings where
  files := { files := [(["notes.md".toList], .text "# Notes\n- [ ] Write report\n".toList)] }
  configPath := .ok (.ofText "config.yaml".toList)
  instanceId := "tpl-0123456789".toList
  timestamp := "2024-05-01T12:00:00".toList

/-- Give the task to somebody. -/
def report (member : Text) : AssignOrder :=
  { path := "notes.md".toList, line := 2, member, slug := "ann-lee".toList }

theorem targets_report (member : Text) :
    notebook.Targets (report member) (.ofText "notes.md".toList)
      "# Notes\n- [ ] Write report\n".toList 1 "- [ ] Write report".toList
      { head := "- [ ] ".toList, text := "Write report".toList } where
  path :=
    show (Path.ofText "notes.md".toList).expand [] = .ok (.ofText "notes.md".toList) by
      decide +kernel
  files := by decide +kernel
  file := by decide +kernel
  room := by decide +kernel
  there := by decide +kernel
  number := rfl
  reads := by decide +kernel
  assignee := nofun
  instanceId := ⟨by decide, by decide⟩
  fresh := by decide

/-- A name with one space in it is assigned. -/
theorem assigns_report :
    notebook.Assigns (report "Ann Lee".toList) (.ofText "notes.md".toList)
      (Markdown.ofText "# Notes\n- [ ] Write report\n".toList).lines 1 := by
  refine (assigns_iff (targets_report _)).mpr ⟨by decide, by decide, ?_, ?_⟩
  · exact .of_not_mem (by decide +kernel)
  · have hnone : Markup.wrappers (Task.ahead
        { head := "- [ ] ".toList, text := "Write report".toList } .assignee) = [] := by
      decide +kernel
    exact hnone ▸ nofun

/-- A name with two spaces side by side is not assigned. -/
theorem not_assigns_two_spaces :
    ¬ ∀ (s : Surroundings) (o : AssignOrder) (p : Path) (text : Text) (i : Nat) (line : Text)
      (task : Task), s.Targets o p text i line task →
        s.Assigns o p (Markdown.ofText text).lines i := by
  intro h
  obtain ⟨lines, ⟨printed, files, written, hassign, -, -⟩, -⟩ :=
    h _ _ _ _ _ _ _ (targets_report "Ann  Lee".toList)
  have hcode : (notebook.assign (report "Ann  Lee".toList)).ending matches .exit 1 _ := by
    decide +kernel
  rw [hassign] at hcode
  cases hcode

end Surroundings

end TaskLine
