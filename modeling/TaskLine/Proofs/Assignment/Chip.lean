import TaskLine.Member
import TaskLine.Proofs.Instance
import TaskLine.Proofs.Interleaving

/-!
# The wrapper of an assignment

The wrapper is an opening tag with data attributes and a coloured mark in bold behind it
(`assignment_eq`). Whatever the name and the slug are, it is one closed wrapper
(`closed_assignment`) with a single span in it (`spans_assignment`), and it claims the slot of its
kind of member (`place_assignment`). Only its white space is that of the name and the slug
(`neat_assignment`).
-/

namespace TaskLine

open Text (Neat isSpace)
open Markup (attributes escape Closed)

/-- The place on a line that a slot stands for. -/
def AssignmentSlot.place : AssignmentSlot → Markup.Template.Place
  | .assignee => .assignee
  | .delegate => .delegate

namespace Assignment

variable {id member slug : Text} {type : MemberType} {state : AssignmentState}

/-! ## How it is written -/

/-- What the opening tag says. -/
def said (id slug : Text) (type : MemberType) (state : AssignmentState) : List (Text × Text) :=
  [("template-wrapper".toList, id), ("template-key".toList, Markup.Template.assigneeKey),
    ("order-tag".toList, "assignment".toList), ("assignment-state".toList, state.name),
    ("member-slug".toList, Text.trim slug), ("member-type".toList, type.name),
    ("assign-type".toList, type.slot.name)]

/-- The opening tag. -/
def openTag (id slug : Text) (type : MemberType) (state : AssignmentState) : Text :=
  "<span".toList ++ (attributes (said id slug type state) ++ ['>'])

/-- The tag of the coloured mark. -/
def markTag (color : Text) : Text :=
  "<mark".toList ++ (" style=\"".toList ++ ("background".toList ++ (": ".toList ++ (color ++
    (';' :: ' ' :: ("color".toList ++ (": ".toList ++ ("#000000".toList ++ [';', '"', '>']))))))))

/-- What stands in the mark. -/
def label (member : Text) (type : MemberType) : Text :=
  type.emoji :: ' ' :: escape (Text.trim member)

/-- What stands behind the opening tag. -/
def body (member : Text) (type : MemberType) (state : AssignmentState) : Text :=
  markTag (chipColor type.slot state) ++ ("<strong>".toList ++ (label member type ++
    ("</strong>".toList ++ ("</mark>".toList ++ "</span>".toList))))

theorem chip_eq {color : Text} (hcolor : escape color = color) (hne : color ≠ []) (text : Text) :
    Markup.chip text (some color) (some "#000000".toList) true =
      markTag color ++
        ("<strong>".toList ++ (text ++ ("</strong>".toList ++ "</mark>".toList))) := by
  have hrule : ∀ (name : String) (v : Text), v ≠ [] → Markup.styleRule name (some v) =
      [name.toList ++ (": ".toList ++ (escape v ++ [';']))] := by
    intro name v hv
    obtain ⟨c, cs, rfl⟩ := List.exists_cons_of_ne_nil hv
    simp only [Markup.styleRule, List.append_assoc]
  have hblack : escape "#000000".toList = "#000000".toList := by decide
  unfold Markup.chip
  rw [hrule "background" color hne, hrule "color" _ (by decide), hblack, hcolor, markTag]
  dsimp only [List.cons_append, List.nil_append, List.isEmpty_cons]
  rw [if_neg Bool.false_ne_true, if_pos rfl, Text.join_cons, Text.row_cons, Text.row_nil]
  simp only [List.append_assoc, List.cons_append, List.nil_append]

/-- The properties that the wrapper is given. -/
def given (slug : Text) (type : MemberType) (state : AssignmentState) :
    List (Text × Markup.PropValue) :=
  [("orderTag".toList, .text "assignment".toList), ("assignmentState".toList, .text state.name),
    ("memberSlug".toList, .text (Text.trim slug)), ("memberType".toList, .text type.name),
    ("assignType".toList, .text type.slot.name)]

theorem assignment_eq_wrap (id member slug : Text) (type : MemberType) (state : AssignmentState) :
    assignment id member slug type state =
      Markup.wrap id Markup.Template.assigneeKey
        (Markup.chip (label member type) (some (chipColor type.slot state))
          (some "#000000".toList) true) (given slug type state) :=
  rfl

/-- What the opening tag says, with the names of the properties in lower-case words. -/
theorem said_given (id slug : Text) (type : MemberType) (state : AssignmentState) :
    Markup.said id Markup.Template.assigneeKey (given slug type state) =
      said id slug type state := by
  have horder : Markup.kebab "orderTag".toList = "order-tag".toList := by decide +kernel
  have hstate : Markup.kebab "assignmentState".toList = "assignment-state".toList := by
    decide +kernel
  have hslug : Markup.kebab "memberSlug".toList = "member-slug".toList := by decide +kernel
  have htype : Markup.kebab "memberType".toList = "member-type".toList := by decide +kernel
  have hassign : Markup.kebab "assignType".toList = "assign-type".toList := by decide +kernel
  simp only [Markup.said, given, Markup.PropValue.written?, Option.map_some, List.filterMap_cons,
    List.filterMap_nil, horder, hstate, hslug, htype, hassign, said]

theorem openTag_eq (id slug : Text) (type : MemberType) (state : AssignmentState) :
    openTag id slug type state = Markup.spanTag (Markup.inFull (said id slug type state)) :=
  congrArg (fun t => "<span".toList ++ (t ++ ['>'])) (Markup.attributes_eq_written _)

/-- The wrapper is its opening tag with the coloured mark behind it. -/
theorem assignment_eq (hid : InstanceId id) (member slug : Text) (type : MemberType)
    (state : AssignmentState) :
    assignment id member slug type state =
      openTag id slug type state ++ body member type state := by
  have hcolor : escape (chipColor type.slot state) = chipColor type.slot state := by
    cases type <;> cases state <;> decide
  have hne : chipColor type.slot state ≠ [] := by
    cases type <;> cases state <;> decide
  rw [assignment_eq_wrap, Markup.wrap_eq hid, said_given, ← openTag_eq, chip_eq hcolor hne, body]
  simp only [List.append_assoc]

/-! ## How it is read -/

theorem forall_dataName (id slug : Text) (type : MemberType) (state : AssignmentState) :
    ∀ a ∈ said id slug type state, Markup.DataName a.1 := by
  simp only [said, List.forall_mem_cons]
  exact ⟨by decide, by decide, by decide, by decide, by decide, by decide, by decide, nofun⟩

theorem wholeTag_openTag (id slug : Text) (type : MemberType) (state : AssignmentState) :
    Markup.WholeTag (openTag id slug type state) := by
  rw [openTag_eq]
  exact Markup.wholeTag_spanTag (Markup.plainAttribute_inFull (forall_dataName id slug type state))

theorem opensWrapper_openTag (id slug : Text) (type : MemberType) (state : AssignmentState) :
    Markup.opensWrapper (openTag id slug type state) = true := by
  rw [openTag_eq, Markup.opensWrapper_spanTag_iff
    (Markup.plainAttribute_inFull (forall_dataName id slug type state))]
  have hkey : ("data-".toList ++ "template-key".toList, escape Markup.Template.assigneeKey) ∈
      Markup.inFull (said id slug type state) := .tail _ (.head _)
  exact .inl ⟨_, hkey, by decide⟩

theorem lt_notMem_label (member : Text) (type : MemberType) : '<' ∉ label member type := by
  intro h
  rcases List.mem_cons.mp h with h | h
  · revert h
    cases type <;> decide
  · rcases List.mem_cons.mp h with h | h
    · cases h
    · exact (Markup.inert_of_mem_escape h).1 rfl

theorem bodyLength_body (member : Text) (type : MemberType) (state : AssignmentState) (v : Text) :
    Markup.bodyLength 1 0 (body member type state ++ v) = (body member type state).length := by
  have hmark : Markup.WholeTag (markTag (chipColor type.slot state)) ∧
      Markup.depthAfter 1 (markTag (chipColor type.slot state)) = 1 := by
    cases type <;> cases state <;> exact ⟨⟨⟨_, rfl⟩, fun _ => rfl⟩, by decide⟩
  have hstrong : Markup.WholeTag "<strong>".toList := ⟨⟨_, rfl⟩, fun _ => rfl⟩
  have hstrongEnd : Markup.WholeTag "</strong>".toList := ⟨⟨_, rfl⟩, fun _ => rfl⟩
  have hmarkEnd : Markup.WholeTag "</mark>".toList := ⟨⟨_, rfl⟩, fun _ => rfl⟩
  have hspanEnd : Markup.WholeTag "</span>".toList := ⟨⟨_, rfl⟩, fun _ => rfl⟩
  have hzero : Markup.bodyLength 0 0 v = 0 := by cases v <;> rfl
  simp only [body, List.append_assoc]
  rw [Markup.bodyLength_tag 0 hmark.1, hmark.2, Markup.bodyLength_tag 0 hstrong,
    show Markup.depthAfter 1 "<strong>".toList = 1 by decide,
    Markup.bodyLength_text 0 (lt_notMem_label member type), Markup.bodyLength_tag 0 hstrongEnd,
    show Markup.depthAfter 1 "</strong>".toList = 1 by decide, Markup.bodyLength_tag 0 hmarkEnd,
    show Markup.depthAfter 1 "</mark>".toList = 1 by decide, Markup.bodyLength_tag 0 hspanEnd,
    show Markup.depthAfter 1 "</span>".toList = 0 by decide, hzero]
  simp only [List.length_append, Nat.add_zero]

theorem closed_assignment (hid : InstanceId id) (member slug : Text) (type : MemberType)
    (state : AssignmentState) : Closed (assignment id member slug type state) := by
  rw [assignment_eq hid]
  exact Markup.closed_append (wholeTag_openTag id slug type state)
    (opensWrapper_openTag id slug type state) (bodyLength_body member type state)

/-! ## Its place -/

theorem forall_dataName_given (id slug : Text) (type : MemberType) (state : AssignmentState) :
    ∀ a ∈ Markup.said id Markup.Template.assigneeKey (given slug type state), Markup.DataName a.1 :=
  said_given id slug type state ▸ forall_dataName id slug type state

theorem key_assignment (hid : InstanceId id) (member slug : Text) (type : MemberType)
    (state : AssignmentState) :
    (Markup.Template.read (assignment id member slug type state)).key =
      Markup.Template.assigneeKey := by
  rw [assignment_eq_wrap,
    Markup.key_read_wrap hid (forall_dataName_given id slug type state)]
  decide

theorem lookup_map_escape (pairs : List (Text × Text)) (name : Text) :
    (pairs.map fun a => (a.1, escape a.2)).lookup name = (pairs.lookup name).map escape := by
  induction pairs with
  | nil => rfl
  | cons a pairs ih =>
      rw [List.map_cons, List.lookup_cons, List.lookup_cons, ih]
      cases name == a.1 <;> rfl

/-- The properties of the wrapper are what its opening tag says, escaped. -/
theorem get?_props_assignment (hid : InstanceId id) (member slug : Text) (type : MemberType)
    (state : AssignmentState) (name : Text) :
    (Markup.Template.read (assignment id member slug type state)).props.get? name =
      ((said id slug type state).reverse.lookup name).map escape := by
  rw [assignment_eq_wrap,
    Markup.props_read_wrap hid (forall_dataName_given id slug type state), said_given,
    Markup.Props.get?_ofPairs, ← List.map_reverse, lookup_map_escape]

theorem assignType_assignment (hid : InstanceId id) (member slug : Text) (type : MemberType)
    (state : AssignmentState) :
    (Markup.Template.read (assignment id member slug type state)).assignType = type.slot.name := by
  have hown : (said id slug type state).reverse.lookup "assign-type".toList =
      some type.slot.name := rfl
  rw [Markup.Template.assignType, get?_props_assignment hid, hown]
  cases type <;> rfl

/-- The wrapper claims the slot that it is for. -/
theorem place_assignment (hid : InstanceId id) (member slug : Text) (type : MemberType)
    (state : AssignmentState) :
    (Markup.Template.read (assignment id member slug type state)).place = type.slot.place := by
  rw [Markup.Template.place, if_pos (key_assignment hid member slug type state),
    assignType_assignment hid]
  cases type <;> rfl

/-! ## What stands in it -/

/-- Neither a tag nor another kind of quotes is begun or ended by attributes. -/
theorem notMem_attributes {c : Char} (hc : ¬Markup.Inert c) (hquote : c ≠ '"')
    (attrs : List (Text × Text)) (h : ∀ a ∈ attrs, Markup.DataName a.1) : c ∉ attributes attrs := by
  intro hmem
  obtain ⟨a, ha, hmem⟩ := List.mem_flatMap.mp hmem
  rw [← List.append_nil (Markup.attributeText _ _), Markup.attributeText_eq] at hmem
  rcases List.mem_append.mp hmem with hmem | hmem
  · exact hc ((h a ha).inert c hmem)
  rcases List.mem_cons.mp hmem with hmem | hmem
  · exact hquote hmem
  rcases List.mem_append.mp hmem with hmem | hmem
  · exact hc (Markup.inert_of_mem_escape hmem)
  · exact hquote (List.mem_singleton.mp hmem)

/-- The wrapper has one span in it, its own. -/
theorem spans_assignment (hid : InstanceId id) (member slug : Text) (type : MemberType)
    (state : AssignmentState) :
    Markup.spans (assignment id member slug type state) = 1 := by
  have hopen : Markup.spans (openTag id slug type state) = 1 := by
    have hrest : '<' ∉ "span".toList ++ (attributes (said id slug type state) ++ ['>']) := by
      intro h
      rcases List.mem_append.mp h with h | h
      · exact absurd h (by decide)
      · rcases List.mem_append.mp h with h | h
        · exact notMem_attributes (by decide) (by decide) _ (forall_dataName id slug type state) h
        · exact absurd h (by decide)
    have hnone := Markup.spans_text hrest []
    rw [List.append_nil] at hnone
    exact congrArg (1 + ·) hnone
  have hmark : (markTag (chipColor type.slot state)).getLast? = some '>' ∧
      Markup.spans (markTag (chipColor type.slot state)) = 0 := by
    cases type <;> cases state <;> decide
  rw [assignment_eq hid,
    Markup.spans_append_of_last (wholeTag_openTag id slug type state).getLast?_eq, hopen, body,
    Markup.spans_append_of_last hmark.1, hmark.2,
    Markup.spans_append_of_last (s := "<strong>".toList) rfl,
    Markup.spans_text (lt_notMem_label member type)]
  decide

theorem id_infix_assignment (hid : InstanceId id) (member slug : Text) (type : MemberType)
    (state : AssignmentState) : id <:+: assignment id member slug type state := by
  obtain ⟨rest, hattrs⟩ : ∃ rest, attributes (said id slug type state) =
      Markup.attributeText ("data-".toList ++ "template-wrapper".toList) id ++ rest :=
    ⟨_, List.flatMap_cons⟩
  have hmid : ∀ a b c d e : Text, id <:+: a ++ (b ++ '"' :: (id ++ c) ++ d) ++ e :=
    fun a b c d e => ⟨a ++ (b ++ ['"']), c ++ (d ++ e), by simp⟩
  rw [assignment_eq hid, openTag_eq, Markup.spanTag, ← Markup.attributes_eq_written, hattrs,
    Markup.attributeText_eq, hid.escape_eq]
  exact hmid _ _ _ _ _

theorem forall_neat_said (hid : InstanceId id) (slug : Text) (type : MemberType)
    (state : AssignmentState) :
    (∀ a ∈ said id slug type state, Neat a.2) ↔ Neat (Text.trim slug) := by
  have hneat : Neat id :=
    Text.neat_of_not_isSpace fun c hc => Line.isSpace_of_isBlockChar (hid.forall_mem c hc)
  have hkey : Neat Markup.Template.assigneeKey := by decide
  have horder : Neat "assignment".toList := by decide
  have hstate : Neat state.name := by cases state <;> decide
  have htype : Neat type.name := by cases type <;> decide
  have hslot : Neat type.slot.name := by cases type <;> decide
  simp only [said, List.forall_mem_cons, hneat, hkey, horder, hstate, htype, hslot, true_and,
    List.not_mem_nil, false_imp_iff, implies_true, and_true]

theorem neat_label (member : Text) (type : MemberType) :
    Neat (label member type) ↔ Neat (Text.trim member) := by
  have hemoji : Neat [type.emoji] ∧ ∀ c, [type.emoji].getLast? = some c → isSpace c = false := by
    cases type <;> decide
  have hhead : ∀ c, (escape (Text.trim member)).head? = some c → isSpace c = false := by
    intro c hc
    by_contra hspace
    rw [Bool.not_eq_false] at hspace
    obtain ⟨d, hd, hspace⟩ := (Markup.isSpace_head_escape _).mp ⟨c, hc, hspace⟩
    rcases Text.trim_eq_nil_or_firm member with hnil | hfirm
    · rw [hnil] at hd
      cases hd
    · rw [hfirm.head d hd] at hspace
      cases hspace
  rw [label, ← List.singleton_append, Text.neat_append_iff hemoji.2, and_iff_right hemoji.1,
    Text.neat_space_cons_iff hhead, Markup.neat_escape]

theorem neat_body (member : Text) (type : MemberType) (state : AssignmentState) :
    Neat (body member type state) ↔ Neat (Text.trim member) := by
  have hmark : Neat (markTag (chipColor type.slot state)) ∧
      ∀ c, (markTag (chipColor type.slot state)).getLast? = some c → isSpace c = false := by
    cases type <;> cases state <;> decide
  rw [body, Text.neat_append_iff hmark.2, and_iff_right hmark.1,
    Text.neat_append_iff (s := "<strong>".toList) (by decide), and_iff_right (by decide),
    Text.neat_append_iff_of_not_isSpace (by decide), neat_label]

/-- The wrapper is as neat as the name and the slug. -/
theorem neat_assignment (hid : InstanceId id) (member slug : Text) (type : MemberType)
    (state : AssignmentState) :
    Neat (assignment id member slug type state) ↔
      Neat (Text.trim member) ∧ Neat (Text.trim slug) := by
  have hgt : ∀ c, ['>'].getLast? = some c → isSpace c = false := by decide
  rw [assignment_eq hid, openTag, List.append_assoc, List.append_assoc,
    Text.neat_append_iff (s := "<span".toList) (by decide),
    and_iff_right (show Neat "<span".toList by decide),
    Markup.neat_attributes_append (forall_dataName id slug type state),
    forall_neat_said hid, Text.neat_append_iff hgt, neat_body,
    and_iff_right (show Neat ['>'] by decide), and_comm]

end Assignment

end TaskLine
