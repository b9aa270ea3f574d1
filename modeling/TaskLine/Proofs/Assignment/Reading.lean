import TaskLine.Proofs.Assignment.Chip
import TaskLine.Proofs.References
import TaskLine.Task

/-!
# Reading an assignment

A name and a slug may look like markup: they may hold quotes, tags, even the end of a wrapper or
another data attribute. In the wrapper they are escaped, and so all that read it agree on what it
says (`assignmentFor_legible`). The scanner finds the one wrapper and goes on behind it. The tag has
the properties that were written, and no others (`get?_props_assignment`). What stands in the
wrapper begins behind the first `>`, which is the one that ends the opening tag
(`inner_assignment`).
-/

namespace TaskLine

open Markup (escape)

/-! ## Slots -/

/-- The slots of a line with no wrapper but one that is assigned. -/
def Slots.only (x : Markup.Template) : AssignmentSlot → Slots
  | .assignee => { assignee := some x }
  | .delegate => { delegate := some x }

theorem Slots.ofTemplates_singleton {x : Markup.Template} {slot : AssignmentSlot}
    (h : x.place = slot.place) : ofTemplates [x] = .only x slot := by
  cases slot <;> simp [ofTemplates_eq, only, h, AssignmentSlot.place]

theorem MemberType.ofName?_name (t : MemberType) : MemberType.ofName? t.name = some t := by
  cases t <;> decide

theorem AssignmentState.ofName?_name (st : AssignmentState) :
    AssignmentState.ofName? st.name = some st := by
  cases st <;> decide

theorem slotForName_name (t : MemberType) : slotForName t.name = t.slot := by
  rw [slotForName, t.ofName?_name]

/-! ## What stands in a span -/

namespace Markup

theorem beforeSpanEnd?_append (s : Text) : beforeSpanEnd? (s ++ "</span>".toList) = some s := by
  have hlength : (s ++ "</span>".toList).length - 7 = s.length := by
    rw [List.length_append]
    exact Nat.add_sub_cancel s.length 7
  have hend : Text.afterFold? "</span>".toList "</span>".toList = some [] := rfl
  rw [beforeSpanEnd?, hlength, List.drop_left, List.take_left, hend]

theorem spanContent?_space (s : Text) :
    spanContent? ("<span".toList ++ ' ' :: s) =
      ((Text.splitAt? '>' (' ' :: s)).map Prod.snd).bind beforeSpanEnd? := by
  have hopen : Text.afterFold? "<span".toList ("<span".toList ++ ' ' :: s) = some (' ' :: s) := rfl
  have hspace : Text.isWordChar ' ' = false := by decide +kernel
  rw [spanContent?, hopen, Option.bind_some]
  dsimp only
  rw [if_neg (Bool.eq_false_iff.mp hspace)]

end Markup

namespace Assignment

variable {id : Text}

/-- The coloured mark. -/
def mark (member : Text) (type : MemberType) (state : AssignmentState) : Text :=
  markTag (chipColor type.slot state) ++ ("<strong>".toList ++ (label member type ++
    ("</strong>".toList ++ "</mark>".toList)))

theorem body_eq (member : Text) (type : MemberType) (state : AssignmentState) :
    body member type state = mark member type state ++ "</span>".toList := by
  simp only [body, mark, List.append_assoc]

theorem inner_assignment (hid : InstanceId id) (member slug : Text) (type : MemberType)
    (state : AssignmentState) :
    (Markup.Template.read (assignment id member slug type state)).inner =
      mark member type state := by
  have hfirm := (closed_assignment hid member slug type state).firm
  have hgt : '>' ∉ Markup.attributes (said id slug type state) :=
    notMem_attributes (by decide) (by decide) _ (forall_dataName id slug type state)
  obtain ⟨z, hz⟩ : ∃ z, Markup.attributes (said id slug type state) = ' ' :: z := ⟨_, rfl⟩
  have hread : Markup.spanContent? (assignment id member slug type state) =
      Markup.beforeSpanEnd? (body member type state) := by
    rw [assignment_eq hid, openTag, List.append_assoc, List.append_assoc, List.singleton_append,
      hz, List.cons_append, Markup.spanContent?_space, ← List.cons_append, ← hz,
      Markup.splitAt?_append hgt, Option.map_some, Option.bind_some]
  rw [Markup.Template.read]
  dsimp only
  rw [Markup.innerText, Text.trim, hfirm.trimLeft, hfirm.trimRight, hread, body_eq,
    Markup.beforeSpanEnd?_append, Option.getD_some]

theorem escape_infix_mark (member : Text) (type : MemberType) (state : AssignmentState) :
    escape (Text.trim member) <:+: mark member type state :=
  ⟨markTag (chipColor type.slot state) ++ ("<strong>".toList ++ [type.emoji, ' ']),
    "</strong>".toList ++ "</mark>".toList, by simp [mark, label]⟩

/-! ## All of it -/

/-- What was given is what is read of a wrapper and of nothing else: the name, the slug and the kind
of the member, and the state. -/
structure Legible (refs : Markup.References) (member slug type state w : Text) : Prop where
  found : ∀ t, Markup.wrappers (w ++ t) = w :: Markup.wrappers t
  slots : Slots.ofWrappers [w] = .only (.read w) (slotForName type)
  slug : ((Markup.Template.read w).props.get? "member-slug".toList).map refs.unescape = some slug
  assignType : (Markup.Template.read w).props.get? "assign-type".toList =
    some (slotForName type).name
  memberType : (Markup.Template.read w).props.get? "member-type".toList = some type
  state : (Markup.Template.read w).props.get? "assignment-state".toList = some state
  order : (Markup.Template.read w).props.get? "order-tag".toList = some "assignment".toList
  member : escape member <:+: (Markup.Template.read w).inner

/-- Whatever the name and the slug hold, the wrapper is read as it was meant. -/
theorem assignmentFor_legible (refs : Markup.References) (hid : InstanceId id) (member slug : Text)
    {type : Text} {t : MemberType} (htype : Text.trim type = t.name) (st : AssignmentState) :
    ∃ w, assignmentFor id member slug type st.name = .ok w ∧
      Legible refs (Text.trim member) (Text.trim slug) (Text.trim type) st.name w := by
  have hwritten : assignmentFor id member slug type st.name =
      .ok (assignment id member slug t st) := by
    rw [assignmentFor, htype, t.ofName?_name]
    dsimp only
    rw [st.ofName?_name]
  have hsaid : ∀ (name : Text) {v : Text}, (said id slug t st).reverse.lookup name = some v →
      (Markup.Template.read (assignment id member slug t st)).props.get? name = some (escape v) :=
    fun _ _ h => by rw [get?_props_assignment hid, h, Option.map_some]
  refine ⟨_, hwritten, ?_⟩
  rw [htype]
  exact {
    found := (closed_assignment hid member slug t st).reads.wrappers
    slots := by
      rw [slotForName_name]
      exact Slots.ofTemplates_singleton (place_assignment hid member slug t st)
    slug := by
      rw [hsaid "member-slug".toList rfl, Option.map_some,
        Markup.References.unescape_escape]
    assignType := by
      rw [hsaid "assign-type".toList rfl, slotForName_name]
      cases t <;> rfl
    memberType := by
      rw [hsaid "member-type".toList rfl]
      cases t <;> rfl
    state := by
      rw [hsaid "assignment-state".toList rfl]
      cases st <;> rfl
    order := hsaid "order-tag".toList rfl
    member := by
      rw [inner_assignment hid]
      exact escape_infix_mark member t st }

/-- Names of references in common use, and the characters of the numbers. -/
def commonReferences : Markup.References where
  named? name := [("amp;".toList, ['&']), ("lt;".toList, ['<']), ("gt;".toList, ['>']),
    ("quot;".toList, ['"'])].lookup name
  numbered n := [Char.ofNat n]
  amp := by decide
  lt := by decide
  gt := by decide
  quot := by decide
  apostrophe := by decide

/-- A name that ends the wrapper, and a slug that says that it is for everyone. -/
theorem assignmentFor_legible_markup :
    InstanceId "tpl-0123456789".toList ∧
      ∃ w, assignmentFor "tpl-0123456789".toList "</span> Ann".toList
          "ann\" data-assign-type=\"special".toList " delegateTeam ".toList "active".toList =
            .ok w ∧
        Legible commonReferences "</span> Ann".toList "ann\" data-assign-type=\"special".toList
          "delegateTeam".toList "active".toList w := by
  have hid : InstanceId "tpl-0123456789".toList := ⟨by decide, by decide⟩
  have htype : Text.trim " delegateTeam ".toList = MemberType.delegateTeam.name := by decide
  have hmember : Text.trim "</span> Ann".toList = "</span> Ann".toList := by decide
  have hslug : Text.trim "ann\" data-assign-type=\"special".toList =
      "ann\" data-assign-type=\"special".toList := by decide
  obtain ⟨w, hw, hlegible⟩ := assignmentFor_legible commonReferences hid "</span> Ann".toList
    "ann\" data-assign-type=\"special".toList htype .active
  rw [hmember, hslug, htype] at hlegible
  exact ⟨hid, w, hw, hlegible⟩

end Assignment

end TaskLine
