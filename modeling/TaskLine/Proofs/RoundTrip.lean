import TaskLine.Proofs.ReadBack

/-!
# Writing and reading canonical pieces

Pieces are *canonical* (`Pieces.Canonical`) when each has the form in which it
is written: wrappers that are closed and stand in their own slot, a text with
nothing of markup, tokens or references in it, tokens and other wrappers in
order. Canonical pieces can be read off the line that they make
(`Pieces.read_write`).
-/

namespace TaskLine

open Text (Blank Firm Tidy row join collapse)
open Markup (Template Closed)
open DateToken (Shape InOrder arrow)

/-! ## Canonical pieces -/

/-- A closed wrapper without wide gaps that claims this place on the line. -/
structure Fits (place : Template.Place) (w : Text) : Prop where
  closed : Closed w
  tidy : Tidy w
  place_eq : (Template.read w).place = place

/-- The pieces have the form in which they are written; `states` are the wrappers of the state
piece and `tokens` the date tokens with their shapes. -/
structure Pieces.Canonical (p : Pieces) (states : List Text) (tokens : List (Shape × Text)) :
    Prop where
  head : ∃ b c, (b = '-' ∨ b = '*') ∧ p.head = [b, ' ', '[', c, ']', ' ']
  text : p.text = [] ∨ Firm p.text
  text_tidy : Tidy p.text
  text_plain : ∀ c ∈ p.text, c ≠ '<' ∧ c ≠ '^' ∧ c ≠ arrow ∧ DateToken.isMark c = false
  text_head : p.text.head? ≠ some ']'
  parentLink : ∀ w, p.parentLink = some w → Fits .parentLink w
  itemType : ∀ w, p.itemType = some w → Fits .itemType w
  state : p.state = if states = [] then none else some (join [' '] states)
  states : ∀ w ∈ states, Fits .state w
  others : ∀ w ∈ p.others, Fits .other w
  others_order : p.others.Pairwise fun v w =>
    Task.otherBefore (Template.read v) (Template.read w) = true
  assignee : ∀ w, p.assignee = some w → Fits .assignee w
  delegate : ∀ w, p.delegate = some w → Fits .delegate w
  delegate_assignee : p.delegate ≠ none → p.assignee ≠ none
  metadata : ∀ w ∈ p.metadata, Fits .metadata w
  dates : p.dates = tokens.map Prod.snd
  spelled : ∀ x ∈ tokens, x.1.Spelled x.2 ∧ Tidy x.2
  dates_order : InOrder tokens
  blockId : ∀ b, p.blockId = some b → IsReference b

/-- The task that the pieces are the pieces of. -/
def Pieces.task (p : Pieces) (states : List Text) : Task where
  head := p.head
  text := p.text
  blockId := p.blockId
  slots :=
    { parentLink := p.parentLink.map Template.read
      itemType := p.itemType.map Template.read
      assignee := p.assignee.map Template.read
      delegate := p.delegate.map Template.read
      states := states.map Template.read
      others := p.others.map Template.read
      metadata := p.metadata.map Template.read }
  dates := p.dates

namespace Pieces.Canonical

variable {p : Pieces} {states : List Text} {tokens : List (Shape × Text)}

theorem sorted_slots (h : p.Canonical states tokens) :
    (p.task states).slots.sorted = (p.task states).slots := by
  have hsorted : sortBy Task.otherBefore (p.others.map Template.read) =
      p.others.map Template.read :=
    sortBy_eq_self (List.pairwise_map.mpr h.others_order)
  rw [Slots.sorted, task, hsorted]

theorem pieces_task (h : p.Canonical states tokens) : (p.task states).pieces {} = p := by
  have hhtml : ∀ ws : List Text, (ws.map Template.read).map (·.html) = ws := fun ws => by
    rw [List.map_map]
    exact List.map_id _
  have hoption : ∀ o : Option Text, (o.map Template.read).map (·.html) = o := by
    rintro (_ | w) <;> rfl
  have hothers := congrArg Slots.others h.sorted_slots
  simp only [Slots.sorted] at hothers
  have hstate : present (some (join [' '] states)) = p.state := by
    rw [h.state]
    cases hs : states with
    | nil => rfl
    | cons w ws =>
        have hw : w ≠ [] := (h.states w (hs ▸ List.mem_cons_self)).closed.firm.ne_nil
        rw [if_neg (List.cons_ne_nil _ _), present_of_ne_nil]
        rw [Text.join_cons]
        simp [hw]
  have hdelegate : (if (present p.assignee).isSome then p.delegate else none) = p.delegate := by
    cases ha : p.assignee with
    | none =>
        have := h.delegate_assignee
        rw [ha] at this
        have hnone : p.delegate = none := by simpa using this
        rw [hnone]
        split <;> rfl
    | some a =>
        rw [present_of_ne_nil (h.assignee a ha).closed.firm.ne_nil]
        rfl
  simp only [Task.pieces, hothers, Override.resolve]
  simp only [task, hhtml, hoption, hstate, hdelegate]

theorem placed (h : p.Canonical states tokens) : (p.task states).slots.Placed := by
  have hoption : ∀ {o : Option Text} {q : Template.Place}, (∀ w, o = some w → Fits q w) →
      ∀ x, o.map Template.read = some x → x.place = q := by
    intro o q ho x hx
    obtain ⟨w, hw, rfl⟩ := Option.map_eq_some_iff.mp hx
    exact (ho w hw).place_eq
  have hlist : ∀ {ws : List Text} {q : Template.Place}, (∀ w ∈ ws, Fits q w) →
      ∀ x ∈ ws.map Template.read, x.place = q := by
    intro ws q hws x hx
    obtain ⟨w, hw, rfl⟩ := List.mem_map.mp hx
    exact (hws w hw).place_eq
  exact
    { parentLink := hoption h.parentLink
      itemType := hoption h.itemType
      assignee := hoption h.assignee
      delegate := hoption h.delegate
      states := hlist h.states
      others := hlist h.others
      metadata := hlist h.metadata }

/-- Every template of the task is read off a closed wrapper without wide gaps. -/
theorem exists_fits (h : p.Canonical states tokens) {x : Template}
    (hx : x ∈ (p.task states).slots.templates) : ∃ w q, x = Template.read w ∧ Fits q w := by
  have hoption : ∀ {o : Option Text} {q : Template.Place}, (∀ w, o = some w → Fits q w) →
      x ∈ (o.map Template.read).toList → ∃ w q, x = Template.read w ∧ Fits q w := by
    intro o q ho hx
    obtain ⟨w, hw, rfl⟩ := Option.map_eq_some_iff.mp (Option.mem_toList.mp hx)
    exact ⟨w, q, rfl, ho w hw⟩
  have hlist : ∀ {ws : List Text} {q : Template.Place}, (∀ w ∈ ws, Fits q w) →
      x ∈ ws.map Template.read → ∃ w q, x = Template.read w ∧ Fits q w := by
    intro ws q hws hx
    obtain ⟨w, hw, rfl⟩ := List.mem_map.mp hx
    exact ⟨w, q, rfl, hws w hw⟩
  simp only [Slots.templates, task, List.mem_append] at hx
  rcases hx with (((((hx | hx) | hx) | hx) | hx) | hx) | hx
  · exact hoption h.parentLink hx
  · exact hoption h.itemType hx
  · exact hlist h.states hx
  · exact hlist h.others hx
  · exact hoption h.assignee hx
  · exact hoption h.delegate hx
  · exact hlist h.metadata hx

theorem sound (h : p.Canonical states tokens) : (p.task states).Sound where
  slots := h.placed.ofTemplates_templates
  templates x hx := by
    obtain ⟨w, q, rfl, hfits⟩ := h.exists_fits hx
    exact ⟨rfl, hfits.closed⟩
  delegate hd := by
    have := h.delegate_assignee
    simp only [task, ne_eq, Option.map_eq_none_iff] at hd ⊢
    exact this hd
  text := h.text
  tokens w hw := by
    rw [show (p.task states).dates = p.dates from rfl, h.dates] at hw
    obtain ⟨x, hx, rfl⟩ := List.mem_map.mp hw
    exact (h.spelled x hx).1.tokenlike
  blockId := h.blockId

/-- The head of a canonical line is one in front of its words. -/
theorem leads (h : p.Canonical states tokens) :
    Line.Leads p.head (join [' '] (p.task states).words) := by
  obtain ⟨b, c, hb, hhead⟩ := h.head
  have hspace : Blank [' '] := Blank.singleton (by decide)
  refine ⟨[], b, [' '], [c], [' '], Blank.nil, hb, hspace, ?_, hspace, hhead⟩
  by_cases hc : Text.isSpace c = true
  · exact .white (Blank.singleton hc) (List.cons_ne_nil _ _)
      fun hbracket => h.text_head (h.sound.bracket_text hbracket).2
  · exact .mark Blank.nil (by simpa using hc) Blank.nil

theorem legible (h : p.Canonical states tokens) : (p.task states).Legible tokens where
  toSound := h.sound
  head := h.leads
  clear := .inl ⟨.of_not_mem fun hmem => (h.text_plain _ hmem).1 rfl, by
    rw [show (p.task states).dates = p.dates from rfl, h.dates]
    exact DateToken.wrappers_join_spelled fun x hx => (h.spelled x hx).1⟩
  quiet := DateToken.Unmarked.quiet fun c hc => (h.text_plain c hc).2.2.2
  noArrow hmem := (h.text_plain _ hmem).2.2.1 rfl
  reference _ href := (h.text_plain _ (Line.endsInReference_caret href)).2.1 rfl
  dates := h.dates
  spelled x hx := (h.spelled x hx).1
  inOrder := h.dates_order

theorem tidy_words (h : p.Canonical states tokens) {w : Text}
    (hw : w ∈ (p.task states).words) : Tidy w := by
  refine h.legible.tidy_words (fun w hw => ?_) h.text_tidy (fun w hw => ?_) hw
  · obtain ⟨x, hx, rfl⟩ := List.mem_map.mp hw
    obtain ⟨w, q, rfl, hfits⟩ := h.exists_fits hx
    exact hfits.tidy
  · rw [show (p.task states).dates = p.dates from rfl, h.dates] at hw
    obtain ⟨x, hx, rfl⟩ := List.mem_map.mp hw
    exact (h.spelled x hx).2

/-- The line that canonical pieces make. -/
theorem write_eq (h : p.Canonical states tokens) :
    ∃ g, (g = [] ∨ g = [' ']) ∧ ((p.task states).words = [] → g = []) ∧
      p.write = p.head ++ (join [' '] (p.task states).words ++ g) := by
  obtain ⟨b, c, hb, hhead⟩ := h.head
  have hhtml : ∀ x ∈ (p.task states).slots.templates, x.html ≠ [] := by
    intro x hx
    exact (h.legible.closed (List.mem_map_of_mem hx)).firm.ne_nil
  have hrow : row p.fragments = row (p.task states).words := by
    have := Task.row_fragments (p.task states) hhtml
    rw [h.pieces_task, h.sorted_slots] at this
    exact this
  have htidy : Tidy [b, ' ', '[', c, ']'] := by
    have hspace : Text.isSpace '[' = false ∧ Text.isSpace ']' = false := by decide
    simp [Text.Tidy, Line.isSpace_bullet hb, hspace]
  obtain ⟨g, hg, hempty, heq⟩ := h.sound.guardTag_collapse h.leads (k := [b, ' ', '[', c, ']'])
    hhead htidy (fun d hd => by
      obtain rfl : ']' = d := by simpa using hd
      decide)
    fun w hw => h.tidy_words hw
  refine ⟨g, hg, hempty, ?_⟩
  rw [Pieces.write_eq, hrow]
  exact heq

end Pieces.Canonical

/-- The line that canonical pieces make is read as these pieces again: the head, each slot, the
lists in their order, the tokens and the block reference. The text comes back up to a space in
front of it and one behind it. -/
theorem Pieces.read_write {p : Pieces} {states : List Text} {tokens : List (Shape × Text)}
    (h : p.Canonical states tokens) :
    ∃ a b, (a = [] ∨ a = [' ']) ∧ (b = [] ∨ b = [' ']) ∧
      Task.read? p.write = some
        { head := p.head
          text := a ++ p.text ++ b
          blockId := p.blockId
          slots :=
            { parentLink := p.parentLink.map Template.read
              itemType := p.itemType.map Template.read
              assignee := p.assignee.map Template.read
              delegate := p.delegate.map Template.read
              states := states.map Template.read
              others := p.others.map Template.read
              metadata := p.metadata.map Template.read }
          dates := p.dates } := by
  obtain ⟨g, hg, hempty, hwrite⟩ := h.write_eq
  have hgspace : ∀ c ∈ g, c = ' ' := by
    rcases hg with rfl | rfl <;> simp
  have hgblank : Blank g := fun c hc => by
    rw [hgspace c hc]
    decide
  obtain ⟨a, b, ha, hb, -, hread⟩ := h.legible.read?_eq hgblank hempty
  have hbspace : ∀ c ∈ b, c = ' ' := fun c hc => (hb c hc).elim id (hgspace c)
  rw [hwrite]
  rcases h.text with htext | htext
  · have hab : ∀ c ∈ a ++ b, c = ' ' := fun c hc => (List.mem_append.mp hc).elim (ha c) (hbspace c)
    refine ⟨collapse (a ++ b), [], Text.collapse_spaces hab, .inl rfl, ?_⟩
    refine hread.trans ?_
    simp only [task, htext, List.append_nil]
  · refine ⟨collapse a, collapse b, Text.collapse_spaces ha, Text.collapse_spaces hbspace, ?_⟩
    refine hread.trans ?_
    simp only [task, htext.collapse_append, Text.collapse_eq_self h.text_tidy]

/-! ### A line with every piece -/

instance (place : Template.Place) (w : Text) : Decidable (Fits place w) :=
  decidable_of_iff (Closed w ∧ Tidy w ∧ (Template.read w).place = place)
    ⟨fun h => ⟨h.1, h.2.1, h.2.2⟩, fun h => ⟨h.closed, h.tidy, h.place_eq⟩⟩

namespace Pieces

/-- A wrapper with these attributes that holds a name. -/
def sampleWrapper (attributes name : String) : Text :=
  "<span data-template-key=".toList ++ attributes.toList ++ ['>'] ++ name.toList
    ++ "</span>".toList

def sampleStates : List Text :=
  [sampleWrapper "\"st\" data-order-tag=\"state\"" "on",
    sampleWrapper "\"st\" data-order-tag=\"state\"" "off"]

def sampleTokens : List (Shape × Text) :=
  [(.dated, "🛫 2024-01-01".toList),
    (.snoozeName, "💤<span style=\"display: none\">ann ^1</span> 2024-02-01".toList),
    (.snoozeFolders, "💤🗂️<span style=\"display: none\">[a, b]</span>".toList),
    (.snoozeAll, "💤⬇️".toList), (.dated, "❌ 2024-03-01".toList)]

/-- A white box, two states, two other wrappers of which one has an order tag, a delegate, tokens
of four ranks, and a block reference. -/
def sample : Pieces where
  head := "- [ ] ".toList
  text := "a > \"b".toList
  parentLink := some (sampleWrapper "\"p\" data-order-tag=\"parent-link\"" "up")
  itemType := some (sampleWrapper "\"t\" data-order-tag=\"artifact-item-type\"" "bug")
  state := some (join [' '] sampleStates)
  others := [sampleWrapper "\"o\" data-order-tag=\"B\"" "x", sampleWrapper "\"o\"" "y"]
  assignee := some (sampleWrapper "\"members.assignee\" data-assign-type=\"assignee\"" "ann")
  delegate := some (sampleWrapper "\"members.assignee\" data-assign-type=\"delegate\"" "bob")
  metadata := [sampleWrapper "\"m\" data-order-tag=\"metadata\"" "z"]
  dates := sampleTokens.map Prod.snd
  blockId := some "^b-1".toList

theorem spelled_sampleTokens : ∀ x ∈ sampleTokens, x.1.Spelled x.2 := by
  have hdate : ∀ m : Text, DateToken.Digits 2 m →
      DateToken.SpacedDate ([' '] ++ ("2024".toList ++ '-' :: (m ++ '-' :: "01".toList))) :=
    fun m hm => ⟨[' '], _, Blank.singleton (by decide), List.cons_ne_nil _ _,
      ⟨"2024".toList, m, "01".toList, ⟨rfl, by decide⟩, hm, ⟨rfl, by decide⟩, rfl⟩, rfl⟩
  have hjan := hdate "01".toList ⟨rfl, by decide⟩
  have hfeb := hdate "02".toList ⟨rfl, by decide⟩
  have hmar := hdate "03".toList ⟨rfl, by decide⟩
  simp only [sampleTokens, List.forall_mem_cons]
  refine ⟨⟨'🛫', _, rfl, hjan, by decide⟩, ⟨"ann ^1".toList, _, ?_, by decide, hfeb, by decide⟩,
    ⟨"a, b".toList, ?_, by decide⟩, rfl, ⟨'❌', _, rfl, hmar, by decide⟩, by simp⟩
  · exact ⟨by decide, by decide⟩
  · exact ⟨by decide, by decide⟩

theorem canonical_sample : sample.Canonical sampleStates sampleTokens where
  head := ⟨'-', ' ', .inl rfl, rfl⟩
  text := .inr (by decide)
  text_tidy := by decide
  text_plain := by decide
  text_head := by decide
  parentLink w h := Option.some.inj h ▸ by decide +kernel
  itemType w h := Option.some.inj h ▸ by decide +kernel
  state := rfl
  states := by decide +kernel
  others := by decide +kernel
  others_order := by decide +kernel
  assignee w h := Option.some.inj h ▸ by decide +kernel
  delegate w h := Option.some.inj h ▸ by decide +kernel
  delegate_assignee := by decide
  metadata := by decide +kernel
  dates := rfl
  spelled x hx := ⟨spelled_sampleTokens x hx, by revert x; decide⟩
  dates_order := by unfold InOrder; decide
  blockId b h := Option.some.inj h ▸ ⟨"b-1".toList, by decide, by decide, rfl⟩

theorem read_write_sample : ∃ task, Task.read? sample.write = some task ∧
    task.slots.wrappers.length = 9 ∧ task.dates = sample.dates ∧
    task.blockId = some "^b-1".toList := by
  obtain ⟨a, b, -, -, h⟩ := read_write canonical_sample
  exact ⟨_, h, rfl, rfl, rfl⟩

end Pieces

end TaskLine
