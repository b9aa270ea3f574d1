import TaskLine.Format
import TaskLine.Proofs.Scanning
import TaskLine.Proofs.Sorting

/-!
# The layout of a written line

A line is written by appending fragments to its head, and then its white space
is collapsed. Whether a space was put between two fragments, or stood there
already, makes no difference then: the line is its head with a row of words
behind it (`Pieces.write_eq`). The words of a task are its wrappers, its text,
its tokens and its block reference, one by one (`Task.words`), and an arrow
between the people.
-/

namespace TaskLine

open Text (row collapse)
open Markup (Template)

namespace Pieces

theorem collapse_append (out fragment s : Text) :
    collapse (append out fragment ++ s) = collapse (out ++ ' ' :: (fragment ++ s)) := by
  unfold append
  split
  · rename_i hlast
    obtain ⟨front, rfl⟩ : ∃ front, out = front ++ [' '] := by
      rw [List.getLast?_eq_some_iff] at hlast
      exact hlast
    rw [List.append_assoc, List.append_assoc, List.append_assoc]
    refine Text.collapse_congr_left front ?_
    exact (Text.collapse_space_cons (by decide) (fragment ++ s)).symm
  · simp

/-- Appending fragments and setting them in a row come to the same line. -/
theorem collapse_foldl_append (fragments : List Text) (out : Text) :
    collapse (fragments.foldl append out) = collapse (out ++ row fragments) := by
  have h : ∀ s, collapse (fragments.foldl append out ++ s) =
      collapse (out ++ row fragments ++ s) := by
    induction fragments generalizing out with
    | nil => intro s; simp
    | cons f fragments ih =>
        intro s
        rw [List.foldl_cons, ih, List.append_assoc, collapse_append]
        simp
  simpa using h []

theorem write_eq (p : Pieces) :
    p.write = Line.guardTag (collapse (p.head ++ row p.fragments)) := by
  rw [write, collapse_foldl_append]

theorem row_spaced (ws : List Text) : row (spaced ws) = row ws := by
  unfold spaced
  split
  · rename_i h
    rw [List.isEmpty_iff.mp h]
  · rename_i h
    have hne : ws ≠ [] := by simpa using h
    rw [← Text.space_join hne]
    simp

end Pieces

theorem present_of_ne_nil {s : Text} (h : s ≠ []) : present (some s) = some s := by
  simp [present, Option.filter, h]

/-! ## Slots -/

/-- Every template stands in the slot that it claims. -/
structure Slots.Placed (s : Slots) : Prop where
  parentLink : ∀ x, s.parentLink = some x → x.place = .parentLink
  itemType : ∀ x, s.itemType = some x → x.place = .itemType
  assignee : ∀ x, s.assignee = some x → x.place = .assignee
  delegate : ∀ x, s.delegate = some x → x.place = .delegate
  states : ∀ x ∈ s.states, x.place = .state
  others : ∀ x ∈ s.others, x.place = .other
  metadata : ∀ x ∈ s.metadata, x.place = .metadata

theorem filter_place {q : Template.Place} {xs : List Template} (h : ∀ x ∈ xs, x.place = q)
    (r : Template.Place) :
    xs.filter (·.place = r) = if q = r then xs else [] := by
  split
  · rename_i hqr
    exact List.filter_eq_self.mpr fun x hx => by simp [h x hx, hqr]
  · rename_i hqr
    exact List.filter_eq_nil_iff.mpr fun x hx => by simp [h x hx, hqr]

theorem find?_place {q : Template.Place} {xs : List Template} (h : ∀ x ∈ xs, x.place = q)
    (r : Template.Place) :
    xs.find? (·.place = r) = if q = r then xs.head? else none := by
  rw [← List.head?_filter, filter_place h]
  split <;> rfl

/-- Templates that stand in their slots are sorted into them again. -/
theorem Slots.Placed.ofTemplates_templates {s : Slots} (h : s.Placed) :
    ofTemplates s.templates = s := by
  have hoption : ∀ {o : Option Template} {q : Template.Place},
      (∀ x, o = some x → x.place = q) → ∀ x ∈ o.toList, x.place = q :=
    fun ho x hx => ho x (Option.mem_toList.mp hx)
  simp only [ofTemplates_eq, templates, List.filter_append, List.find?_append,
    filter_place (hoption h.parentLink), filter_place (hoption h.itemType),
    filter_place (hoption h.assignee), filter_place (hoption h.delegate),
    filter_place h.states, filter_place h.others, filter_place h.metadata,
    find?_place (hoption h.parentLink), find?_place (hoption h.itemType),
    find?_place (hoption h.assignee), find?_place (hoption h.delegate),
    find?_place h.states, find?_place h.others, find?_place h.metadata]
  simp

theorem Slots.mem_of_mem_templates {x : Template} {ts : List Template}
    (h : x ∈ (ofTemplates ts).templates) : x ∈ ts := by
  simp only [templates, ofTemplates_eq, List.mem_append, Option.mem_toList, List.mem_filter] at h
  rcases h with (((((h | h) | h) | h) | h) | h) | h
  · exact List.mem_of_find?_eq_some h
  · exact List.mem_of_find?_eq_some h
  · exact h.1
  · exact h.1
  · exact List.mem_of_find?_eq_some h
  · exact List.mem_of_find?_eq_some h
  · exact h.1

/-- A template on a line was read off one of its wrappers. -/
theorem Slots.exists_wrapper {x : Template} {ws : List Text}
    (h : x ∈ (ofWrappers ws).templates) : ∃ w ∈ ws, x = Template.read w := by
  obtain ⟨w, hw, rfl⟩ := List.mem_map.mp (mem_of_mem_templates h)
  exact ⟨w, hw, rfl⟩

/-- The templates that are written: a delegate only behind an assignee. -/
def Slots.written (s : Slots) : List Template :=
  s.parentLink.toList ++ s.itemType.toList ++ s.states ++ s.others ++ s.assignee.toList
    ++ (if s.assignee = none then [] else s.delegate.toList) ++ s.metadata

/-- What stands in a slot has claimed it. -/
theorem Slots.placed_ofTemplates (ts : List Template) : (ofTemplates ts).Placed := by
  have hfind : ∀ {q : Template.Place} {x : Template},
      ts.find? (·.place = q) = some x → x.place = q := fun h => by
    simpa using List.find?_some h
  have hfilter : ∀ {q : Template.Place} {x : Template},
      x ∈ ts.filter (·.place = q) → x.place = q := fun h => by
    simpa using List.of_mem_filter h
  rw [ofTemplates_eq]
  exact
    { parentLink := fun _ => hfind
      itemType := fun _ => hfind
      assignee := fun _ => hfind
      delegate := fun _ => hfind
      states := fun _ => hfilter
      others := fun _ => hfilter
      metadata := fun _ => hfilter }

/-- The order of the other wrappers. -/
theorem Task.comparison_otherBefore : Comparison Task.otherBefore where
  total a b := by
    unfold otherBefore
    cases a.order <;> cases b.order
    · exact .inl rfl
    · exact .inr rfl
    · exact .inl rfl
    · exact Text.comparison_atMost.total _ _
  trans := by
    intro a b c hab hbc
    unfold otherBefore at hab hbc ⊢
    cases ha : a.order <;> cases hb : b.order <;> cases hc : c.order <;> simp_all
    exact Text.comparison_atMost.trans hab hbc

/-! ## The words of a task -/

/-- The people of a line, and the arrow between the two. -/
def Slots.people (s : Slots) : List Text :=
  match s.assignee, s.delegate with
  | some a, some d => [a.html, [DateToken.arrow], d.html]
  | some a, none => [a.html]
  | none, _ => []

/-- The slots with the other wrappers in the order in which they are written. -/
def Slots.sorted (s : Slots) : Slots := { s with others := sortBy Task.otherBefore s.others }

namespace Task

/-- The words in front of the text. -/
def front (t : Task) : List Text :=
  (t.slots.parentLink.toList ++ t.slots.itemType.toList).map (·.html)

/-- The wrappers behind the text, and the arrow between the people. -/
def tags (t : Task) : List Text :=
  (t.slots.states ++ t.slots.others).map (·.html) ++ t.slots.people
    ++ t.slots.metadata.map (·.html)

/-- The words behind the text. -/
def back (t : Task) : List Text := t.tags ++ t.dates ++ (present t.blockId).toList

/-- The words of a task in the order in which they are written. -/
def words (t : Task) : List Text := t.front ++ (present (some t.text)).toList ++ t.back

/-- The words in front of the block reference. -/
def inner (t : Task) : List Text :=
  t.front ++ (present (some t.text)).toList ++ t.tags ++ t.dates

theorem words_eq_inner (t : Task) : t.words = t.inner ++ (present t.blockId).toList := by
  simp only [words, inner, back, List.append_assoc]

/-- A word is a wrapper, the arrow, the text, a token or the block reference. -/
theorem mem_words {t : Task} {w : Text} (hw : w ∈ t.words) :
    w ∈ t.slots.wrappers ∨ w = [DateToken.arrow] ∨ (w = t.text ∧ w ≠ []) ∨ w ∈ t.dates ∨
      t.blockId = some w := by
  have hpeople : w ∈ t.slots.people →
      w ∈ (t.slots.assignee.toList ++ t.slots.delegate.toList).map (·.html) ∨
        w = [DateToken.arrow] := by
    intro hw
    unfold Slots.people at hw
    cases ha : t.slots.assignee <;> cases hd : t.slots.delegate <;> simp_all
    tauto
  simp only [words, front, back, tags, present, List.map_append, List.mem_append,
    Option.mem_toList, Option.filter_eq_some_iff] at hw hpeople
  simp only [Slots.wrappers, Slots.templates, List.map_append, List.mem_append]
  rcases hw with (hw | ⟨htext, hne⟩) | (((hw | hw) | hw) | hw) | hw
  · tauto
  · refine .inr (.inr (.inl ⟨(Option.some.inj htext).symm, ?_⟩))
    simpa using hne
  · tauto
  · tauto
  · tauto
  · tauto
  · exact .inr (.inr (.inr (.inr hw.1)))

theorem exists_template_of_mem_front {t : Task} {w : Text} (hw : w ∈ t.front) :
    ∃ x ∈ t.slots.templates, w = x.html := by
  obtain ⟨x, hx, rfl⟩ := List.mem_map.mp hw
  refine ⟨x, ?_, rfl⟩
  simp only [Slots.templates, List.mem_append] at hx ⊢
  tauto

/-- The first word is one in front of the text, if there are any. -/
theorem mem_front_of_words_eq_cons {t : Task} {w : Text} {ws : List Text} (hfront : t.front ≠ [])
    (hwords : t.words = w :: ws) : w ∈ t.front := by
  obtain ⟨v, vs, hvs⟩ := List.exists_cons_of_ne_nil hfront
  rw [words, hvs, List.cons_append, List.cons_append, List.cons.injEq] at hwords
  rw [hvs, hwords.1]
  exact List.mem_cons_self

theorem present_map_html {tpl : Option Template} (h : ∀ x ∈ tpl, x.html ≠ []) :
    present (tpl.map (·.html)) = tpl.map (·.html) := by
  cases tpl with
  | none => rfl
  | some x => exact present_of_ne_nil (h x rfl)

/-- A state fragment is the states one by one. -/
theorem row_states (ws : List Text) (h : ∀ w ∈ ws, w ≠ []) :
    row (present (present (some (Text.join [' '] ws)))).toList = row ws := by
  cases ws with
  | nil => rfl
  | cons w ws =>
      have hne : Text.join [' '] (w :: ws) ≠ [] := by
        rw [Text.join_cons]
        simp [h w List.mem_cons_self]
      rw [present_of_ne_nil hne, present_of_ne_nil hne,
        ← Text.space_join (List.cons_ne_nil w ws)]
      simp

theorem row_people (t : Task) (ha : ∀ x ∈ t.slots.assignee, x.html ≠ [])
    (hd : ∀ x ∈ t.slots.delegate, x.html ≠ []) :
    row (t.pieces {}).people = row t.slots.people := by
  have hpa := present_map_html ha
  have hpd := present_map_html hd
  simp only [Pieces.people, Task.pieces, Override.resolve, hpa, Slots.people]
  cases hassignee : t.slots.assignee with
  | none => rfl
  | some a =>
      cases hdelegate : t.slots.delegate with
      | none => rfl
      | some d =>
          rw [hdelegate] at hpd
          simp only [Option.map_some] at hpd
          simp [hpd]

/-- A task is written as its words in a row. -/
theorem row_fragments (t : Task) (h : ∀ x ∈ t.slots.templates, x.html ≠ []) :
    row (t.pieces {}).fragments = row { t with slots := t.slots.sorted }.words := by
  have hmem : ∀ x, x ∈ t.slots.parentLink.toList ∨ x ∈ t.slots.itemType.toList ∨
      x ∈ t.slots.states ∨ x ∈ t.slots.others ∨ x ∈ t.slots.assignee.toList ∨
      x ∈ t.slots.delegate.toList ∨ x ∈ t.slots.metadata → x.html ≠ [] := by
    intro x hx
    refine h x ?_
    simpa [Slots.templates] using hx
  have hpeople := row_people t
    (fun x hx => hmem x (.inr (.inr (.inr (.inr (.inl (Option.mem_toList.mpr hx)))))))
    (fun x hx => hmem x (.inr (.inr (.inr (.inr (.inr (.inl (Option.mem_toList.mpr hx))))))))
  have hstates := row_states (t.slots.states.map (·.html)) fun w hw => by
    obtain ⟨x, hx, rfl⟩ := List.mem_map.mp hw
    exact hmem x (.inr (.inr (.inl hx)))
  have hparent : ∀ x ∈ t.slots.parentLink, x.html ≠ [] :=
    fun x hx => hmem x (.inl (Option.mem_toList.mpr hx))
  have hitem : ∀ x ∈ t.slots.itemType, x.html ≠ [] :=
    fun x hx => hmem x (.inr (.inl (Option.mem_toList.mpr hx)))
  have hmap : ∀ tpl : Option Template, (tpl.map (·.html)).toList = tpl.toList.map (·.html) := by
    rintro (_ | x) <;> rfl
  simp only [Pieces.fragments, Text.row_append, Pieces.row_spaced, hpeople, words, front, back,
    tags, List.map_append]
  simp only [Task.pieces, present_map_html hparent, present_map_html hitem, hstates, hmap,
    Slots.sorted, Slots.people, List.append_assoc]

end Task

/-- The frame of a line is its head and its block reference. -/
theorem Frame.read?_eq_some_iff {line : Text} {frame : Frame} :
    Frame.read? line = some frame ↔ Line.splitHead? line = some (frame.head, frame.rest) ∧
      Line.splitBlockId frame.rest = (frame.content, frame.blockId) := by
  rw [Frame.read?, Option.map_eq_some_iff]
  constructor
  · rintro ⟨⟨head, rest⟩, hsplit, rfl⟩
    exact ⟨hsplit, rfl⟩
  · rintro ⟨hsplit, hblock⟩
    refine ⟨_, hsplit, ?_⟩
    obtain ⟨head, rest, content, blockId⟩ := frame
    simp only [hblock]

/-- The task that stands in a frame. -/
def Frame.task (frame : Frame) : Task where
  head := frame.head
  text := Task.plainText (Markup.removeWrappers frame.content)
  blockId := frame.blockId
  slots := .ofWrappers (Markup.wrappers frame.content)
  dates := DateToken.ordered (Markup.removeWrappers frame.content)

theorem Frame.read?_task {line : Text} {frame : Frame} (h : Frame.read? line = some frame) :
    Task.read? line = some frame.task := by
  rw [Task.read?, h]
  rfl

theorem Frame.exists_of_task {line : Text} {task : Task} (h : Task.read? line = some task) :
    ∃ frame, Frame.read? line = some frame ∧ frame.task = task := by
  rw [Task.read?, Option.map_eq_some_iff] at h
  exact h

theorem Frame.wrappersOf_eq {line : Text} {frame : Frame} (h : Frame.read? line = some frame) :
    Task.wrappersOf line = (Slots.ofWrappers (Markup.wrappers frame.content)).wrappers := by
  rw [Task.wrappersOf, Frame.read?_task h]
  rfl

theorem Frame.html_ne_nil {frame : Frame} {x : Template} (h : x ∈ frame.task.slots.templates) :
    x.html ≠ [] := by
  obtain ⟨w, hw, rfl⟩ := Slots.exists_wrapper h
  obtain ⟨⟨cs, rfl⟩, -⟩ := Markup.mem_wrappers hw
  exact List.cons_ne_nil _ _

/-- The canonical form of a task line is its head with the words of the task behind it. -/
theorem formatLine_eq {line : Text} {frame : Frame} (h : Frame.read? line = some frame) :
    formatLine {} line =
      Line.guardTag (collapse (frame.head ++
        row { frame.task with slots := frame.task.slots.sorted }.words)) := by
  rw [formatLine_of_some (Frame.read?_task h), Pieces.write_eq,
    Task.row_fragments _ fun x hx => Frame.html_ne_nil hx]
  rfl

end TaskLine
