import TaskLine.Proofs.Words

/-!
# Tidied tasks

What formatting writes of a task (`Task.tidied`): the text without the white
space around it, tokens without wide gaps, the other wrappers in order, a
delegate only behind an assignee. White space apart, the canonical form of a
line is the head and the words of its tidied task (`Frame.exists_formatLine_eq`).
-/

namespace TaskLine

open Text (Blank Firm Tidy row join collapse trim trimRight)
open Markup (Template Closed)
open DateToken (arrow)
open Line (Leads guardTag)

/-! ## White space around the text -/

theorem collapse_row_congr (ds : List Text) (s : Text) :
    collapse (row ds ++ s) = collapse (row (ds.map collapse) ++ s) := by
  induction ds with
  | nil => rfl
  | cons d ds ih =>
      simp only [List.map_cons, Text.row_cons, List.cons_append, List.append_assoc]
      refine Text.collapse_congr_cons ' ' ?_
      rw [Text.collapse_collapse_append]
      exact Text.collapse_congr_left d ih

/-- White space in front of the text of a task is part of the gap in front of it. A text of white
space only is one more space between two words. -/
theorem Task.collapse_row_text (t : Task) {a s : Text} (ha : Blank a) (hne : a ++ s ≠ [])
    (h : Text) :
    collapse (h ++ row { t with text := a ++ s }.words) =
      collapse ((h ++ row t.front) ++ ' ' :: (s ++ row t.back)) := by
  have hwords : { t with text := a ++ s }.words =
      t.front ++ (present (some (a ++ s))).toList ++ t.back := rfl
  have hrow : h ++ row (t.front ++ [a ++ s] ++ t.back) =
      (h ++ row t.front) ++ ' ' :: (a ++ (s ++ row t.back)) := by simp
  rw [hwords, present_of_ne_nil hne, Option.toList_some, hrow]
  exact Text.collapse_congr_left _ (Text.collapse_space_blank ha _)

/-- White space in front of words is part of the gap in front of the first of them. -/
theorem collapse_blank_row {g : Text} (hg : Blank g) {ws : List Text} (hne : ws ≠ []) (k : Text) :
    collapse (k ++ (g ++ row ws)) = collapse (k ++ row ws) := by
  obtain ⟨w, ws, rfl⟩ := List.exists_cons_of_ne_nil hne
  rw [Text.row_cons]
  exact Text.collapse_congr_left k (Text.collapse_blank_space hg _)

/-- White space around the text of a task adds nothing to the line, but behind a text that ends
it. -/
theorem Task.collapse_row_words (t : Task) {a b : Text} (ha : Blank a) (hb : Blank b) (h : Text) :
    ∃ tail, Blank tail ∧ (t.back ≠ [] → tail = []) ∧ (t.text ≠ [] → t.back = [] → tail = b) ∧
      collapse (h ++ row { t with text := a ++ t.text ++ b }.words) =
        collapse (h ++ (row t.words ++ tail)) := by
  by_cases htext : t.text = []
  · have hrow : row t.words = row t.front ++ row t.back := by
      simp [words, htext, present, Option.filter]
    by_cases hempty : a ++ b = []
    · refine ⟨[], Blank.nil, fun _ => rfl, fun hne => absurd htext hne, ?_⟩
      have hsame : { t with text := a ++ t.text ++ b } = t := by
        rw [htext, List.append_nil, hempty, ← htext]
      rw [hsame, List.append_nil]
    · have hgap := t.collapse_row_text (ha.append hb) (s := []) (by simpa using hempty) h
      have hspace : Blank [' '] := Blank.singleton (by decide)
      rw [htext, List.append_nil, ← List.append_nil (a ++ b), hgap, List.nil_append, hrow]
      by_cases hback : t.back = []
      · refine ⟨[' '], hspace, fun hne => absurd hback hne, fun hne => absurd rfl hne, ?_⟩
        simp [hback]
      · refine ⟨[], Blank.nil, fun _ => rfl, fun hne => absurd rfl hne, ?_⟩
        refine (collapse_blank_row hspace hback (h ++ row t.front)).trans ?_
        simp
  · have hrow : row t.words = row t.front ++ ' ' :: (t.text ++ row t.back) := by
      simp [words, present_of_ne_nil htext]
    have hgap := t.collapse_row_text ha (s := t.text ++ b) (by simp [htext]) h
    rw [List.append_assoc a, hgap, hrow]
    by_cases hback : t.back = []
    · refine ⟨b, hb, fun hne => absurd hback hne, fun _ _ => rfl, ?_⟩
      simp [hback]
    · refine ⟨[], Blank.nil, fun _ => rfl, fun _ hnil => absurd hnil hback, ?_⟩
      have := collapse_blank_row hb hback ((h ++ row t.front) ++ ' ' :: t.text)
      simpa using this

/-- The words behind a head, however wide the gaps around them. -/
theorem Task.Sound.collapse_head_words {t : Task} (h : t.Sound) (htidy : ∀ w ∈ t.words, Tidy w)
    (hne : t.words ≠ []) {k g tail : Text} (hk : ∀ c, k.getLast? = some c → Text.isSpace c = false)
    (hg : Blank g) :
    collapse (k ++ g ++ (row t.words ++ tail)) =
      collapse k ++ ' ' :: join [' '] t.words ++ collapse tail := by
  have hrow := Text.space_join hne
  have hfirm : ∀ c, (row t.words).getLast? = some c → Text.isSpace c = false := by
    intro c hc
    refine Text.trimRight_last (s := row t.words) ?_
    rw [← hc, ← List.nil_append (row t.words),
      Text.trimRight_row (fun w hw => h.firm_words hw) [] hne]
  calc collapse (k ++ g ++ (row t.words ++ tail))
      = collapse k ++ collapse (g ++ (row t.words ++ tail)) := by
        rw [List.append_assoc, Text.collapse_append_of_last hk]
    _ = collapse k ++ collapse (row t.words ++ tail) := by
        rw [← hrow, List.cons_append, Text.collapse_blank_space hg]
    _ = collapse k ++ (row t.words ++ collapse tail) := by
        rw [Text.collapse_append_of_last hfirm, Text.collapse_eq_self
          (Text.tidy_row fun w hw => ⟨h.firm_words hw, htidy w hw⟩)]
    _ = collapse k ++ ' ' :: join [' '] t.words ++ collapse tail := by
        rw [← hrow, List.append_assoc]

/-! ## Tidying -/

/-- The task as it is written. -/
def Task.tidied (t : Task) : Task where
  head := collapse (trimRight t.head) ++ [' ']
  text := trim t.text
  blockId := t.blockId
  slots :=
    { t.slots.sorted with
      delegate := if t.slots.assignee = none then none else t.slots.delegate }
  dates := t.dates.map collapse

namespace Task

variable (t : Task)

theorem text_tidied : t.tidied.text = trim t.text := rfl

theorem dates_tidied : t.tidied.dates = t.dates.map collapse := rfl

theorem front_tidied : t.tidied.front = t.front := rfl

theorem people_tidied : t.tidied.slots.people = t.slots.people := by
  simp only [tidied, Slots.people, Slots.sorted]
  cases t.slots.assignee <;> rfl

theorem tags_tidied : t.tidied.tags = { t with slots := t.slots.sorted }.tags := by
  rw [tags, tags, people_tidied]
  rfl

theorem tags_tidied_perm : t.tidied.tags.Perm t.tags := by
  rw [tags_tidied, tags, tags]
  refine List.Perm.append_right _ (List.Perm.append_right _ (List.Perm.map _ ?_))
  exact List.Perm.append_left _ (sortBy_perm _ _)

variable {t}

theorem back_of_back_tidied (h : t.tidied.back = []) : t.back = [] := by
  simp only [back, List.append_eq_nil_iff] at h ⊢
  obtain ⟨⟨htags, hdates⟩, hblock⟩ := h
  have hperm := tags_tidied_perm t
  rw [htags] at hperm
  exact ⟨⟨List.nil_perm.mp hperm, List.map_eq_nil_iff.mp hdates⟩, hblock⟩

theorem placed_tidied (h : t.slots.Placed) : t.tidied.slots.Placed where
  parentLink := h.parentLink
  itemType := h.itemType
  assignee := h.assignee
  delegate x hx := by
    simp only [tidied] at hx
    split at hx
    · cases hx
    · exact h.delegate x hx
  states := h.states
  others x hx := h.others x (mem_sortBy.mp hx)
  metadata := h.metadata

theorem mem_written_of_tidied {x : Template} (hx : x ∈ t.tidied.slots.templates) :
    x ∈ t.slots.written := by
  simp only [tidied, Slots.sorted, Slots.templates, List.mem_append, mem_sortBy] at hx
  simp only [Slots.written, List.mem_append]
  split at hx <;> rename_i ha
  · simpa [ha] using hx
  · simpa [ha] using hx

theorem sorted_tidied : t.tidied.slots.sorted = t.tidied.slots := by
  have hsort := sortBy_eq_self (pairwise_sortBy comparison_otherBefore t.slots.others)
  simp only [Slots.sorted, tidied, hsort]

/-- How wide the gaps in the tokens are makes no difference to the line. -/
theorem collapse_row_tidied (t : Task) (h : Text) :
    collapse (h ++ row { t with slots := t.slots.sorted }.words) =
      collapse (h ++ row { t.tidied with text := t.text }.words) := by
  have hfront : ∀ w : List Text, h ++ row (t.front ++ (present (some t.text)).toList ++
      (t.tidied.tags ++ w ++ (present t.blockId).toList)) =
      h ++ row (t.front ++ (present (some t.text)).toList ++ t.tidied.tags) ++
        (row w ++ row (present t.blockId).toList) := by
    intro w
    simp only [Text.row_append, List.append_assoc]
  have hwords : { t with slots := t.slots.sorted }.words =
      t.front ++ (present (some t.text)).toList ++
        (t.tidied.tags ++ t.dates ++ (present t.blockId).toList) := by
    rw [tags_tidied]
    rfl
  have htidied : { t.tidied with text := t.text }.words =
      t.front ++ (present (some t.text)).toList ++
        (t.tidied.tags ++ t.dates.map collapse ++ (present t.blockId).toList) := rfl
  rw [hwords, htidied, hfront, hfront]
  exact Text.collapse_congr_left _ (collapse_row_congr t.dates _)

/-- A task is written as its tidied form is, with white space at the end at most. -/
theorem exists_collapse_row_tidied (t : Task) (h : Text) :
    ∃ tail, Blank tail ∧ (t.tidied.back ≠ [] → tail = []) ∧
      collapse (h ++ row { t with slots := t.slots.sorted }.words) =
        collapse (h ++ (row t.tidied.words ++ tail)) := by
  obtain ⟨a, b, ha, hb, htext⟩ := Text.exists_blank_trim_blank t.text
  obtain ⟨tail, htail, hnone, -, hrow⟩ := t.tidied.collapse_row_words ha hb h
  refine ⟨tail, htail, hnone, ?_⟩
  rw [collapse_row_tidied t, ← hrow]
  exact congrArg (fun x => collapse (h ++ row { t.tidied with text := x }.words)) htext

end Task

theorem Slots.mem_templates_of_written {s : Slots} {x : Template} (hx : x ∈ s.written) :
    x ∈ s.templates := by
  simp only [written, List.mem_append] at hx
  simp only [templates, List.mem_append]
  split at hx
  · simp only [List.not_mem_nil, or_false] at hx
    tauto
  · exact hx


/-- What is written of the wrappers is closed and has no wide gaps. -/
def Slots.Whole (s : Slots) : Prop := ∀ x ∈ s.written, Closed x.html ∧ Tidy x.html

instance (s : Slots) : Decidable s.Whole :=
  inferInstanceAs (Decidable (∀ x ∈ s.written, Closed x.html ∧ Tidy x.html))

/-! ## The tidied task of a line -/

namespace Frame

variable {frame : Frame} {line : Text}

theorem placed_task : frame.task.slots.Placed :=
  Slots.placed_ofTemplates _

theorem text_task : frame.task.text = Task.plainText (Markup.removeWrappers frame.content) := by
  rw [task]

theorem dates_task :
    frame.task.dates = DateToken.ordered (Markup.removeWrappers frame.content) := by
  rw [task]

theorem isReference_blockId (hread : Frame.read? line = some frame) {b : Text}
    (hb : frame.task.blockId = some b) : IsReference b := by
  refine Line.exists_name_of_splitBlockId (s := frame.rest) ?_
  rw [(Frame.read?_eq_some_iff.mp hread).2]
  exact hb

theorem noArrow_tidied : arrow ∉ frame.task.tidied.text := by
  rw [Task.text_tidied]
  intro hmem
  obtain ⟨g, g', -, -, hg⟩ := Text.exists_blank_trim_blank frame.task.text
  have hmem : arrow ∈ frame.task.text := by
    rw [hg]
    simp only [List.mem_append]
    exact .inl (.inr hmem)
  have hcount := List.count_pos_iff.mpr hmem
  rw [text_task, Task.plainText, Text.count_collapse (by decide)] at hcount
  obtain ⟨c, -, hc⟩ := List.mem_map.mp (List.count_pos_iff.mp hcount)
  split at hc
  · cases hc
  · rename_i hne
    exact hne hc

theorem tidy_text_tidied : Tidy frame.task.tidied.text := by
  rw [Task.text_tidied, text_task, Task.plainText, Text.trim_collapse]
  exact Text.tidy_collapse _

/-- The tidied task of a line is sound if the wrappers that are written are closed. -/
theorem sound_tidied (hread : Frame.read? line = some frame) (hwhole : frame.task.slots.Whole) :
    frame.task.tidied.Sound where
  slots := (Task.placed_tidied placed_task).ofTemplates_templates
  templates x hx := by
    have hwritten := Task.mem_written_of_tidied hx
    have hmem := Slots.mem_templates_of_written hwritten
    obtain ⟨w, -, rfl⟩ := Slots.exists_wrapper hmem
    exact ⟨rfl, (hwhole _ hwritten).1⟩
  delegate hd ha := hd (if_pos ha)
  text := by
    rw [Task.text_tidied]
    exact Text.trim_eq_nil_or_firm _
  tokens w hw := by
    rw [Task.dates_tidied] at hw
    obtain ⟨v, hv, rfl⟩ := List.mem_map.mp hw
    rw [dates_task] at hv
    exact (DateToken.tokenlike_of_mem_ordered hv).collapse
  blockId b hb := isReference_blockId hread hb

theorem tidy_words (hread : Frame.read? line = some frame) (hwhole : frame.task.slots.Whole)
    {w : Text} (hw : w ∈ frame.task.tidied.words) : Tidy w := by
  refine (sound_tidied hread hwhole).tidy_words (fun w hw => ?_) tidy_text_tidied
    (fun w hw => ?_) hw
  · obtain ⟨x, hx, rfl⟩ := List.mem_map.mp hw
    exact (hwhole x (Task.mem_written_of_tidied hx)).2
  · rw [Task.dates_tidied] at hw
    obtain ⟨v, -, rfl⟩ := List.mem_map.mp hw
    exact Text.tidy_collapse v

theorem head_tidied : frame.task.tidied.head = collapse (trimRight frame.head) ++ [' '] := rfl

theorem exists_leads (hread : Frame.read? line = some frame) : ∃ y, Leads frame.head y :=
  ⟨_, (Line.splitHead?_eq_some_iff.mp (Frame.read?_eq_some_iff.mp hread).1).2.1⟩

/-- In front of any text where the head of the line is one, the tidied head is one. -/
theorem leads_tidied {y : Text} (hlead : Leads frame.head y) : Leads frame.task.tidied.head y := by
  obtain ⟨k, hk, hlead⟩ := hlead.exists_trimRight
  rw [head_tidied, hk]
  exact hlead.collapse.append (Blank.singleton (by decide))

/-- The canonical form of a line is its head and the words of its tidied task. White space ends
it only behind a text or a tag. -/
theorem exists_formatLine_eq (hread : Frame.read? line = some frame)
    (hwhole : frame.task.slots.Whole) (hne : frame.task.tidied.words ≠ []) :
    ∃ g, Blank g ∧ Tidy g ∧
      formatLine {} line =
        frame.task.tidied.head ++ (join [' '] frame.task.tidied.words ++ g) ∧
      guardTag (formatLine {} line) = formatLine {} line ∧
      (frame.task.tidied.back ≠ [] → formatLine {} line =
        guardTag (frame.task.tidied.head ++ join [' '] frame.task.tidied.words)) := by
  have hsound := sound_tidied hread hwhole
  have hspace : Blank [' '] := Blank.singleton (by decide)
  obtain ⟨y, hlead⟩ := exists_leads hread
  obtain ⟨k, hk, -⟩ := hlead.exists_trimRight
  have hlast : ∀ c, (trimRight frame.head).getLast? = some c → Text.isSpace c = false :=
    fun c hc => Text.trimRight_last hc
  obtain ⟨gap, hgap, hhead⟩ := Text.exists_trimRight_blank frame.head
  obtain ⟨tail, htail, hnone, hrow⟩ := frame.task.exists_collapse_row_tidied frame.head
  have hcore :
      collapse (frame.head ++ row { frame.task with slots := frame.task.slots.sorted }.words) =
        frame.task.tidied.head ++ join [' '] frame.task.tidied.words ++ collapse tail := by
    rw [hrow]
    conv_lhs => rw [hhead]
    rw [hsound.collapse_head_words (fun w hw => tidy_words hread hwhole hw) hne hlast hgap,
      head_tidied]
    simp
  have htrim := hsound.trimRight_words hne head_tidied
  have hline : formatLine {} line = guardTag
      (frame.task.tidied.head ++ join [' '] frame.task.tidied.words ++ collapse tail) := by
    rw [formatLine_eq hread, hcore]
  obtain ⟨g, hg, htidy, hguard⟩ : ∃ g, Blank g ∧ Tidy g ∧
      guardTag (frame.task.tidied.head ++ join [' '] frame.task.tidied.words ++ collapse tail) =
        frame.task.tidied.head ++ join [' '] frame.task.tidied.words ++ g := by
    by_cases htag :
        Line.endsInTag (frame.task.tidied.head ++ join [' '] frame.task.tidied.words) = true
    · exact ⟨[' '], hspace, .singleton _, Line.guardTag_append_blank htrim htag htail.collapse⟩
    · refine ⟨collapse tail, htail.collapse, Text.tidy_collapse tail, ?_⟩
      rw [guardTag, Line.endsInTag_append htail.collapse, if_neg htag]
  refine ⟨g, hg, htidy, ?_, ?_, fun hback => ?_⟩
  · rw [hline, hguard, List.append_assoc]
  · rw [hline, Line.guardTag_guardTag]
  · rw [hline, hnone hback, show collapse [] = [] from rfl, List.append_nil]

/-- A head with nothing behind it is read as such. -/
theorem read?_of_leads (hlead : Leads line []) : Frame.read? line = some ⟨line, [], [], none⟩ :=
  Frame.read?_eq_some_iff.mpr
    ⟨Line.splitHead?_eq_some_iff.mpr ⟨(List.append_nil line).symm, hlead, rfl⟩, rfl⟩

/-- A line without words is written as a head alone. -/
theorem leads_formatLine (hread : Frame.read? line = some frame) (hlead : Leads frame.head [])
    (hnil : frame.task.tidied.words = []) :
    Leads (formatLine {} line) [] ∧ Tidy (formatLine {} line) := by
  obtain ⟨tail, htail, -, hrow⟩ := frame.task.exists_collapse_row_tidied frame.head
  rw [hnil] at hrow
  have hlead : Leads (collapse (frame.head ++ tail)) [] := (hlead.append htail).collapse
  have hline : formatLine {} line = collapse (frame.head ++ tail) := by
    rw [formatLine_eq hread, hrow, Text.row_nil, List.nil_append, guardTag, hlead.endsInTag]
    rfl
  rw [hline]
  exact ⟨hlead, Text.tidy_collapse _⟩

end Frame

end TaskLine
