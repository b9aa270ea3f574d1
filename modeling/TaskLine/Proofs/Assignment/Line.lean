import TaskLine.Command.Run
import TaskLine.Proofs.Assignment.Chip
import TaskLine.Proofs.Blotting
import TaskLine.Proofs.Emergence

/-!
# A line with an assignment

The line is written with the wrapper between the words in front of its slot and those behind it
(`exists_formatIndented_eq`), where the id of the wrapper stands nowhere else. Read again it is cut
somewhere in front of the wrapper (`exists_read?_of_leads`), and the wrapper is in its slot exactly
if the scanner emerges in front of it and no other wrapper came first (`exists_at_iff`).
-/

namespace TaskLine

open Text (Blank Firm Tidy row collapse)
open Markup (Template Closed Emerges)

variable {line w : Text} {frame : Frame} {o : AssignOrder}

/-! ## Slots -/

/-- What stands in the slot of an assignment. -/
def Slots.at (s : Slots) : AssignmentSlot → Option Template
  | .assignee => s.assignee
  | .delegate => s.delegate

theorem Slots.at_ofTemplates (ts : List Template) (slot : AssignmentSlot) :
    (ofTemplates ts).at slot = ts.find? (·.place = slot.place) := by
  rw [ofTemplates_eq]
  cases slot <;> rfl

/-! ## The words around a slot -/

/-- A row with a space behind it begins with a space. -/
theorem exists_row_space (ws : List Text) : ∃ z, row ws ++ [' '] = ' ' :: z := by
  cases ws with
  | nil => exact ⟨[], rfl⟩
  | cons w ws => exact ⟨w ++ row ws ++ [' '], by simp⟩

namespace Task

/-- The words in front of the slot of an assignment. -/
def inFront (t : Task) (slot : AssignmentSlot) : List Text :=
  t.front ++ (present (some t.text)).toList
    ++ (t.slots.states ++ t.slots.sorted.others).map (·.html)
    ++ match slot with
      | .assignee => []
      | .delegate => t.slots.assignee.toList.map (·.html) ++ [[DateToken.arrow]]

/-- The words behind the slot of an assignment. With an assignee the delegate may be cleared. -/
def behind (t : Task) (clear : Bool) (slot : AssignmentSlot) : List Text :=
  (match slot with
    | .assignee =>
      if clear then []
      else t.slots.delegate.toList.flatMap fun d => [[DateToken.arrow], d.html]
    | .delegate => []) ++ t.slots.metadata.map (·.html) ++ t.dates ++ (present t.blockId).toList

/-- What is written between the checkbox and the slot of an assignment. -/
def ahead (t : Task) (slot : AssignmentSlot) : Text := collapse (row (t.inFront slot) ++ [' '])

theorem head?_ahead (t : Task) (slot : AssignmentSlot) : (t.ahead slot).head? = some ' ' := by
  obtain ⟨z, hz⟩ := exists_row_space (t.inFront slot)
  rw [ahead, hz]
  cases hout : collapse z with
  | nil => rw [Text.collapse_eq_nil.mp hout]; rfl
  | cons d out =>
      rw [Text.collapse_cons_of_eq_cons hout]
      split <;> rfl

/-- The task with a wrapper assigned to it. -/
def assigned (t : Task) (o : AssignOrder) (w : Text) : Task :=
  match o.type.slot with
  | .assignee => { t with slots := { t.slots with
      assignee := some (Template.read w)
      delegate := if o.clearDelegate then none else t.slots.delegate } }
  | .delegate => { t with slots := { t.slots with delegate := some (Template.read w) } }

theorem pieces_overridesOf (t : Task) (o : AssignOrder) (hw : w ≠ []) :
    t.pieces (Surroundings.overridesOf o w) = (t.assigned o w).pieces {} := by
  have hhtml : (Template.read w).html = w := rfl
  have hnone : present none = none := rfl
  rw [Surroundings.overridesOf, assigned]
  cases hslot : o.type.slot with
  | assignee =>
      cases o.clearDelegate <;>
        simp [pieces, Override.resolve, present_of_ne_nil hw, hhtml, hnone]
  | delegate =>
      simp [pieces, Override.resolve, present_of_ne_nil hw, hhtml]

theorem words_assigned (t : Task) (o : AssignOrder) (w : Text)
    (hassignee : o.type.slot = .delegate → t.slots.assignee ≠ none) :
    { t.assigned o w with slots := (t.assigned o w).slots.sorted }.words =
      t.inFront o.type.slot ++ w :: t.behind o.clearDelegate o.type.slot := by
  have hhtml : (Template.read w).html = w := rfl
  rw [assigned]
  cases hslot : o.type.slot with
  | assignee =>
      cases o.clearDelegate <;> cases hdelegate : t.slots.delegate <;>
        simp [words, front, back, tags, Slots.people, Slots.sorted, inFront, behind, hhtml,
          hdelegate]
  | delegate =>
      obtain ⟨a, ha⟩ := Option.ne_none_iff_exists'.mp (hassignee hslot)
      simp [words, front, back, tags, Slots.people, Slots.sorted, inFront, behind, hhtml, ha]

theorem mem_templates_assigned {t : Task} {x : Template}
    (hx : x ∈ (t.assigned o w).slots.templates) : x = Template.read w ∨ x ∈ t.slots.templates := by
  rw [assigned] at hx
  cases hslot : o.type.slot <;> cases hclear : o.clearDelegate <;>
    simp only [hslot, hclear, Slots.templates, List.mem_append, Option.mem_toList,
      Option.some.injEq, if_true, Bool.false_eq_true, if_false, reduceCtorEq] at hx ⊢ <;> tauto

/-- With a wrapper assigned to it the task is written with the wrapper in its place. -/
theorem row_fragments_overridesOf (t : Task) (o : AssignOrder) (hw : w ≠ [])
    (hassignee : o.type.slot = .delegate → t.slots.assignee ≠ none)
    (hhtml : ∀ x ∈ t.slots.templates, x.html ≠ []) :
    row (t.pieces (Surroundings.overridesOf o w)).fragments =
      row (t.inFront o.type.slot ++ w :: t.behind o.clearDelegate o.type.slot) := by
  rw [pieces_overridesOf t o hw, row_fragments, words_assigned t o w hassignee]
  intro x hx
  rcases mem_templates_assigned hx with rfl | hx
  · exact hw
  · exact hhtml x hx

end Task

/-! ## The indentation -/

/-- Without its indentation a line has the same task behind a shorter head. -/
theorem Frame.exists_read?_body (h : Frame.read? line = some frame) :
    ∃ head, frame.head = Line.indent line ++ head ∧ Line.Leads head frame.rest ∧
      Frame.read? (Line.body line) = some { frame with head } := by
  obtain ⟨hsplit, hblock⟩ := Frame.read?_eq_some_iff.mp h
  obtain ⟨hline, ⟨l, b, g, x, t, hl, hb, hg, hx, ht, hhead⟩, htrim⟩ :=
    Line.splitHead?_eq_some_iff.mp hsplit
  have hbullet := Line.isSpace_bullet hb
  have hsplit : line = l ++ b :: (g ++ '[' :: (x ++ ']' :: t) ++ frame.rest) := by
    rw [hline, hhead, List.append_assoc, List.cons_append]
  have hindent : Line.indent line = l := by
    rw [hsplit, Line.indent, List.takeWhile_append_of_pos hl,
      List.takeWhile_cons_of_neg (by simp [hbullet]), List.append_nil]
  have hbody : Line.body line = b :: (g ++ '[' :: (x ++ ']' :: t)) ++ frame.rest := by
    rw [hsplit, Line.body, List.dropWhile_append_of_pos hl,
      List.dropWhile_cons_of_neg (by simp [hbullet]), List.cons_append]
  have hleads : Line.Leads (b :: (g ++ '[' :: (x ++ ']' :: t))) frame.rest :=
    ⟨[], b, g, x, t, Blank.nil, hb, hg, hx, ht, rfl⟩
  refine ⟨_, hindent ▸ hhead, hleads, Frame.read?_eq_some_iff.mpr ⟨?_, hblock⟩⟩
  exact Line.splitHead?_eq_some_iff.mpr ⟨hbody, hleads, htrim⟩

theorem Line.Leads.prepend {g h y : Text} (hleads : Line.Leads h y) (hg : Blank g) :
    Line.Leads (g ++ h) y := by
  obtain ⟨l, b, g', x, t, hl, hb, hg', hx, ht, rfl⟩ := hleads
  exact ⟨g ++ l, b, g', x, t, hg.append hl, hb, hg', hx, ht, by simp⟩

/-! ## The written line -/

theorem trimRight_append_cons {c : Char} (hc : Text.isSpace c = false) (s t : Text) :
    Text.trimRight (s ++ c :: t) = s ++ c :: Text.trimRight t := by
  obtain ⟨g, hg, ht⟩ := Text.exists_trimRight_blank t
  have hsplit : s ++ c :: t = (s ++ c :: Text.trimRight t) ++ g := by
    rw [List.append_assoc, List.cons_append, ← ht]
  rw [hsplit, Text.trimRight_append hg]
  rcases (Text.trimRight t).eq_nil_or_concat with hnil | ⟨u, d, hd⟩
  · rw [hnil, Text.trimRight_concat hc]
  · rw [List.concat_eq_append] at hd
    have hd' : Text.isSpace d = false :=
      Text.trimRight_last (s := t) (by rw [hd, List.getLast?_concat])
    rw [hd, ← List.cons_append, ← List.append_assoc, Text.trimRight_concat hd']

/-- Behind a tag the space at the end of a line is seen to. -/
theorem guardTag_append_gt (s c : Text) :
    ∃ c', Line.guardTag (s ++ '>' :: c) = s ++ '>' :: c' ∧ Blotted c c' := by
  rw [Line.guardTag]
  split
  · have hblot := blotted_trimRight c []
    rw [List.append_nil] at hblot
    refine ⟨_, ?_, hblot⟩
    rw [trimRight_append_cons (by decide), List.append_assoc, List.cons_append]
  · exact ⟨c, rfl, .refl c⟩

/-- The words around the slot are words of the task. -/
theorem Task.mem_inFront_or_behind (clear : Bool) {t : Task} {slot : AssignmentSlot} {v : Text}
    (hv : v ∈ t.inFront slot ∨ v ∈ t.behind clear slot) :
    v ∈ t.slots.wrappers ∨ v = [DateToken.arrow] ∨ v = t.text ∨ v ∈ t.dates ∨
      t.blockId = some v := by
  have htext : v ∈ (present (some t.text)).toList → v = t.text := fun hmem =>
    (Option.some.inj (Option.filter_eq_some_iff.mp (Option.mem_toList.mp hmem)).1).symm
  have hid : v ∈ (present t.blockId).toList → t.blockId = some v := fun hmem =>
    (Option.filter_eq_some_iff.mp (Option.mem_toList.mp hmem)).1
  have hothers : v ∈ t.slots.sorted.others.map (·.html) → v ∈ t.slots.others.map (·.html) := by
    rintro hmem
    obtain ⟨x, hx, rfl⟩ := List.mem_map.mp hmem
    exact List.mem_map_of_mem (mem_sortBy.mp hx)
  simp only [Slots.wrappers, Slots.templates, List.map_append, List.mem_append]
  rcases hv with hv | hv
  · simp only [inFront, front, List.map_append, List.mem_append] at hv
    rcases hv with ((hv | hv) | hv | hv) | hv
    · exact .inl (.inl (.inl (.inl (.inl (.inl hv)))))
    · exact .inr (.inr (.inl (htext hv)))
    · exact .inl (.inl (.inl (.inl (.inl (.inr hv)))))
    · exact .inl (.inl (.inl (.inl (.inr (hothers hv)))))
    · cases slot with
      | assignee => cases hv
      | delegate =>
          rcases List.mem_append.mp hv with hv | hv
          · exact .inl (.inl (.inl (.inr hv)))
          · exact .inr (.inl (List.mem_singleton.mp hv))
  · simp only [behind, List.mem_append] at hv
    rcases hv with ((hv | hv) | hv) | hv
    · cases slot with
      | assignee =>
          dsimp only at hv
          split at hv
          · cases hv
          · obtain ⟨d, hd, hv⟩ := List.mem_flatMap.mp hv
            rcases List.mem_cons.mp hv with hv | hv
            · exact .inr (.inl hv)
            · refine .inl (.inl (.inr (List.mem_map.mpr ⟨d, hd, ?_⟩)))
              exact (List.mem_singleton.mp hv).symm
      | delegate => cases hv
    · exact .inl (.inr hv)
    · exact .inr (.inr (.inr (.inl hv)))
    · exact .inr (.inr (.inr (.inr (hid hv))))

/-- On a line that collapses the wrapper stays as it is, and in front of it stands the head up to
its bracket and what is ahead of the slot. -/
theorem exists_collapse_eq {head y : Text} (hleads : Line.Leads head y) (hfirm : Firm w)
    (htidy : Tidy w) (t : Task) (slot : AssignmentSlot) (back : List Text) :
    ∃ k, Line.Leads k y ∧
      collapse (head ++ (row (t.inFront slot) ++ [' '])) = k ++ t.ahead slot ∧
      collapse (head ++ row (t.inFront slot ++ w :: back)) =
        k ++ t.ahead slot ++ w ++ collapse (row back) := by
  obtain ⟨k, htrim, hk⟩ := hleads.exists_trimRight
  obtain ⟨g, hg, hsplit⟩ := Text.exists_trimRight_blank head
  obtain ⟨z, hz⟩ := exists_row_space (t.inFront slot)
  rw [htrim] at hsplit
  have hahead : collapse (head ++ (row (t.inFront slot) ++ [' '])) =
      collapse k ++ [']'] ++ t.ahead slot := by
    rw [Task.ahead, hz, hsplit, List.append_assoc, List.append_assoc, List.singleton_append,
      Text.collapse_append_cons (by decide), Text.collapse_blank_space hg]
    simp
  refine ⟨collapse k ++ [']'], ?_, hahead, ?_⟩
  · have hcollapse := hk.collapse
    rwa [Text.collapse_append_cons (by decide)] at hcollapse
  · have hfront : head ++ row (t.inFront slot ++ w :: back) =
        (head ++ (row (t.inFront slot) ++ [' '])) ++ w ++ row back := by
      simp
    rw [hfront, hfirm.collapse_append, hahead, Text.collapse_eq_self htidy]

/-- A line with an assignment has the wrapper between what stands in front of its slot and what
stands behind it. Both hold nothing in one piece that is not in the line before. -/
theorem exists_formatIndented_eq (hread : Frame.read? line = some frame) (hclosed : Closed w)
    (htidy : Tidy w) (hassignee : o.type.slot = .delegate → frame.task.slots.assignee ≠ none) :
    ∃ k b, formatIndented (Surroundings.overridesOf o w) line =
        k ++ (frame.task.ahead o.type.slot ++ (w ++ b)) ∧
      Line.Leads k frame.rest ∧
      ∀ x, Solid x → ¬x <:+: line → ¬x <:+: k ++ frame.task.ahead o.type.slot ∧ ¬x <:+: b := by
  set slot := o.type.slot
  set back := frame.task.behind o.clearDelegate slot
  obtain ⟨head, hhead, hleads, hbody⟩ := Frame.exists_read?_body hread
  obtain ⟨k, hk, hahead, hcollapse⟩ :=
    exists_collapse_eq hleads hclosed.firm htidy frame.task slot back
  obtain ⟨-, -, front, hw⟩ := hclosed.exists_ends
  obtain ⟨b, hguard, hblot⟩ :=
    guardTag_append_gt (k ++ frame.task.ahead slot ++ front) (collapse (row back))
  refine ⟨Line.indent line ++ k, b, ?_, hk.prepend fun c hc => List.mem_takeWhile_imp hc,
    fun x hx hlacks => ⟨?_, ?_⟩⟩
  · have hrow : row (({ frame with head } : Frame).task.pieces
        (Surroundings.overridesOf o w)).fragments = row (frame.task.inFront slot ++ w :: back) :=
      Task.row_fragments_overridesOf _ o hclosed.firm.ne_nil hassignee fun x hx =>
        Frame.html_ne_nil hx
    have hpieces : (({ frame with head } : Frame).task.pieces
        (Surroundings.overridesOf o w)).head = head := rfl
    have hmove : ∀ u : Text, k ++ frame.task.ahead slot ++ w ++ u =
        k ++ frame.task.ahead slot ++ front ++ '>' :: u := fun u => by rw [hw]; simp
    rw [formatIndented, formatLine_of_some (Frame.read?_task hbody), Pieces.write_eq, hrow, hpieces,
      hcollapse, hmove, hguard, ← hmove]
    simp only [List.append_assoc]
  · -- what stands in front is the old head and words of the task
    intro h
    have hfront := ((Blotted.refl (Line.indent line)).append (blotted_collapse
      (head ++ (row (frame.task.inFront slot) ++ [' '])))).infix_before hx.space
        (by rwa [hahead, ← List.append_assoc])
    rw [← List.append_assoc, ← hhead] at hfront
    have hrow : frame.head ++ (row (frame.task.inFront slot) ++ [' ']) =
        frame.head ++ row (frame.task.inFront slot ++ [[]]) := by simp
    rw [hrow] at hfront
    refine not_infix_append_row hx.space ?_ (List.forall_mem_append.mpr ⟨?_, ?_⟩) hfront
    · intro h
      refine hlacks (h.trans ⟨[], frame.rest, ?_⟩)
      exact (Line.splitHead?_eq_some_iff.mp (Frame.read?_eq_some_iff.mp hread).1).1.symm
    · exact fun v hv => Frame.not_infix_word hread hx hlacks
        (Task.mem_inFront_or_behind o.clearDelegate (.inl hv))
    · exact List.forall_mem_singleton.mpr fun h => hx.ne_nil (List.infix_nil.mp h)
  · intro h
    have hback := (blotted_collapse _).infix_before hx.space (hblot.infix_before hx.space h)
    have hnil : ¬x <:+: [] := fun h => hx.ne_nil (List.infix_nil.mp h)
    refine not_infix_append_row hx.space hnil ?_ hback
    exact fun v hv => Frame.not_infix_word hread hx hlacks (Task.mem_inFront_or_behind _ (.inr hv))

/-! ## Reading it again -/

theorem lt_notMem_of_blank {g : Text} (hg : Blank g) : '<' ∉ g :=
  fun hmem => by cases hg _ hmem

/-- Behind the bracket of its box and a space a head ends with white space, or with another bracket
and white space. -/
theorem Line.Leads.exists_splitHead? {k y : Text} (h : Line.Leads k y) (z : Text) :
    ∃ g z', ' ' :: z = g ++ z' ∧ '<' ∉ g ∧
      Line.splitHead? (k ++ ' ' :: z) = some (k ++ g, z') := by
  obtain ⟨g, hg, hz⟩ := Text.exists_blank_trimLeft (' ' :: z)
  have hhead : k ++ ' ' :: z = (k ++ g) ++ Text.trimLeft (' ' :: z) := by
    rw [List.append_assoc, ← hz]
  have hdone : Line.Leads (k ++ g) (Text.trimLeft (' ' :: z)) → ∃ g z', ' ' :: z = g ++ z' ∧
      '<' ∉ g ∧ Line.splitHead? (k ++ ' ' :: z) = some (k ++ g, z') := fun hleads =>
    ⟨g, _, hz, lt_notMem_of_blank hg,
      Line.splitHead?_eq_some_iff.mpr ⟨hhead, hleads, Text.trimLeft_trimLeft _⟩⟩
  by_cases hbracket : (Text.trimLeft (' ' :: z)).head? = some ']'
  · rcases (h.append hg).forall_or_concat with hall | hall
    · exact hdone (hall _)
    · -- the box held white space only, and now it holds the bracket
      obtain ⟨u, hu⟩ := List.head?_eq_some_iff.mp hbracket
      obtain ⟨g', hg', hu'⟩ := Text.exists_blank_trimLeft u
      refine ⟨g ++ ']' :: g', Text.trimLeft u, ?_, ?_, Line.splitHead?_eq_some_iff.mpr
        ⟨?_, ?_, Text.trimLeft_trimLeft u⟩⟩
      · rw [List.append_assoc, List.cons_append, ← hu', ← hu, ← hz]
      · rw [List.mem_append, List.mem_cons]
        rintro (hmem | hmem | hmem)
        · exact lt_notMem_of_blank hg hmem
        · cases hmem
        · exact lt_notMem_of_blank hg' hmem
      · rw [hhead, hu, List.append_assoc, List.append_assoc, List.append_assoc, List.cons_append,
          ← hu']
      · have hleads := (hall (Text.trimLeft u)).append hg'
        simpa using hleads
  · exact hdone ((h.append hg).congr fun hhead => absurd hhead hbracket)

/-- A block reference is taken off behind the last tag. -/
theorem splitBlockId_append_gt (s b : Text) :
    ∃ b' blockId, Line.splitBlockId (s ++ '>' :: b) = (s ++ '>' :: b', blockId) ∧ Blotted b b' := by
  by_cases href : Line.EndsInReference (s ++ '>' :: b)
  · obtain ⟨y, name, g, hne, hname, hg, heq⟩ := href
    have hgt : '>' ∉ '^' :: (name ++ g) := by
      rw [List.mem_cons, List.mem_append]
      rintro (hmem | hmem | hmem)
      · cases hmem
      · cases hname _ hmem
      · cases hg _ hmem
    rcases List.append_eq_append_iff.mp heq with ⟨v, hy, hv⟩ | ⟨v, -, hv⟩
    · cases v with
      | nil => cases (List.cons.inj hv).1
      | cons c v =>
          obtain ⟨rfl, rfl⟩ := List.cons.inj hv
          refine ⟨Text.trimRight v ++ [' '], some ('^' :: name), ?_, blotted_trimRight v _⟩
          rw [heq, Line.splitBlockId_append hne hname hg, hy, trimRight_append_cons (by decide)]
          simp
    · exact absurd (hv ▸ List.mem_append_right v List.mem_cons_self) hgt
  · exact ⟨b, none, Line.splitBlockId_of_not href, .refl b⟩

/-- What is read of a line with a wrapper on it begins somewhere in front of the wrapper, and the
scanner is none the wiser for what it misses of the line. -/
theorem exists_read?_of_leads {k y a b : Text} (hleads : Line.Leads k y) (hclosed : Closed w)
    (ha : a.head? = some ' ') :
    ∃ g z b' head rest blockId, a = g ++ z ∧ '<' ∉ g ∧ Blotted b b' ∧
      Frame.read? (k ++ (a ++ (w ++ b))) = some ⟨head, rest, z ++ (w ++ b'), blockId⟩ := by
  obtain ⟨a, rfl⟩ := List.head?_eq_some_iff.mp ha
  obtain ⟨⟨w', hw'⟩, -⟩ := Markup.mem_wrappers (hclosed ▸ List.mem_singleton_self w)
  obtain ⟨-, -, front, hw⟩ := hclosed.exists_ends
  obtain ⟨g, z', hz', hg, hsplit⟩ := hleads.exists_splitHead? (a ++ (w ++ b))
  obtain ⟨z, hz, rfl⟩ : ∃ z, ' ' :: a = g ++ z ∧ z' = z ++ (w ++ b) := by
    rw [← List.cons_append] at hz'
    rcases List.append_eq_append_iff.mp hz' with ⟨c, hc, hwb⟩ | ⟨c, hc, hwb⟩
    · cases c with
      | nil => exact ⟨[], by rw [hc, List.append_nil, List.append_nil], hwb.symm⟩
      | cons d c =>
          rw [hw'] at hwb
          obtain ⟨rfl, -⟩ := List.cons.inj hwb
          exact absurd (hc ▸ List.mem_append_right _ List.mem_cons_self) hg
    · exact ⟨c, hc, hwb⟩
  obtain ⟨b', blockId, hblock, hblot⟩ := splitBlockId_append_gt (z ++ front) b
  refine ⟨g, z, b', k ++ g, z ++ (w ++ b), blockId, hz, hg, hblot, ?_⟩
  refine Frame.read?_eq_some_iff.mpr ⟨hsplit, ?_⟩
  have hmove : ∀ u : Text, z ++ (w ++ u) = z ++ front ++ '>' :: u := fun u => by rw [hw]; simp
  rw [hmove, hmove, hblock]

/-- The wrapper of an assignment is the first for its place exactly if the scanner emerges from what
stands in front of it and has found no other wrapper for the place there. -/
theorem find?_place_iff {z b x : Text} {place : Template.Place} (hclosed : Closed w)
    (hspans : Markup.spans w = 1) (hplace : (Template.read w).place = place) (hx : x <:+: w)
    (hxz : ¬x <:+: z) (hxb : ¬x <:+: b) :
    (((Markup.wrappers (z ++ (w ++ b))).map Template.read).find? (·.place = place)).map (·.html) =
        some w ↔
      Emerges z ∧ ∀ v ∈ Markup.wrappers z, (Template.read v).place ≠ place := by
  have hbehind : Emerges z → Markup.wrappers (z ++ (w ++ b)) =
      Markup.wrappers z ++ w :: Markup.wrappers b := fun hz => by
    rw [hz.wrappers_append, hclosed.reads.wrappers]
    rfl
  constructor
  · intro hfound
    obtain ⟨found, hfind, hhtml⟩ := Option.map_eq_some_iff.mp hfound
    obtain ⟨v, hv, rfl⟩ := List.mem_map.mp (List.mem_of_find?_eq_some hfind)
    obtain rfl : v = w := hhtml
    obtain ⟨a, c, hsplit, ha⟩ := Markup.exists_emerges_of_mem hv
    obtain ⟨-, -, front, hfront⟩ := hclosed.exists_ends
    obtain rfl : a = z := Markup.eq_of_append_eq hspans hclosed.beginsSpan_eq
      (by rw [hfront, List.getLast?_concat]) hx hxz hxb hsplit
    refine ⟨ha, fun u hu hfirst => hxz ?_⟩
    -- then the wrapper would be one of those in front of it
    have hearlier : ((Markup.wrappers a).map Template.read).find? (·.place = place) =
        some (Template.read v) := by
      rw [hbehind ha, List.map_append, List.find?_append] at hfind
      cases hnone : ((Markup.wrappers a).map Template.read).find? (·.place = place) with
      | some x => rwa [hnone, Option.some_or] at hfind
      | none =>
          refine absurd hfirst ?_
          simpa using List.find?_eq_none.mp hnone _ (List.mem_map_of_mem hu)
    obtain ⟨u', hu', heq⟩ := List.mem_map.mp (List.mem_of_find?_eq_some hearlier)
    obtain rfl : u' = v := congrArg Template.html heq
    exact hx.trans (Markup.mem_wrappers hu').2
  · rintro ⟨hz, hothers⟩
    have hnone : ((Markup.wrappers z).map Template.read).find? (·.place = place) = none := by
      simpa using hothers
    rw [hbehind hz, List.map_append, List.find?_append, hnone, Option.none_or, List.map_cons,
      List.find?_cons_of_pos (by simpa using hplace)]
    rfl

/-- The wrapper of an assignment is read in its slot exactly if the scanner emerges from what stands
in front of it and has found no other wrapper for the slot there. -/
theorem exists_at_iff {k y a b x : Text} {slot : AssignmentSlot} (hleads : Line.Leads k y)
    (hclosed : Closed w) (hspans : Markup.spans w = 1)
    (hplace : (Template.read w).place = slot.place) (ha : a.head? = some ' ') (hx : Solid x)
    (hxw : x <:+: w) (hxa : ¬x <:+: k ++ a) (hxb : ¬x <:+: b) :
    (∃ task, Task.read? (k ++ (a ++ (w ++ b))) = some task ∧
        (task.slots.at slot).map (·.html) = some w) ↔
      Emerges a ∧ ∀ v ∈ Markup.wrappers a, (Template.read v).place ≠ slot.place := by
  obtain ⟨g, z, b', head, rest, blockId, rfl, hg, hblot, hread⟩ :=
    exists_read?_of_leads (b := b) hleads hclosed ha
  have hxz : ¬x <:+: z := fun h => hxa (h.trans ⟨k ++ g, [], by simp⟩)
  have hxb' : ¬x <:+: b' := fun h => hxb (hblot.infix_before hx.space h)
  rw [Markup.emerges_append_iff hg, Markup.wrappers_append_of_not_mem hg, Frame.read?_task hread,
    ← find?_place_iff hclosed hspans hplace hxw hxz hxb']
  have hat : (Frame.task ⟨head, rest, z ++ (w ++ b'), blockId⟩).slots.at slot =
      ((Markup.wrappers (z ++ (w ++ b'))).map Template.read).find? (·.place = slot.place) :=
    Slots.at_ofTemplates _ slot
  rw [← hat]
  constructor
  · rintro ⟨task, htask, hslot⟩
    rwa [Option.some.inj htask]
  · exact fun hslot => ⟨_, rfl, hslot⟩

end TaskLine
