import TaskLine.Pieces
import TaskLine.Proofs.Attributes
import TaskLine.Proofs.Sorting

/-!
# What a wrapper holds has no say

A wrapper goes by its opening tag: its key, its order tag and its properties are read there, and the
tag ends at the first `>` outside quotes, whatever stands behind (`OneTag.openingTag_append`). So
the place that a wrapper takes can be told without its content. Which wrapper of a list takes which
seat, by numbers, is computed from the opening tags alone (`Seats.ofTags`), and the slots and the
pieces of a line are what the list has at these numbers (`slots_ofTags`, `pieces_ofTags`). When the
wrappers are given other content, be it spans with keys and order tags of their own, all of them
keep their seats (`seated_by_tags`).
-/

namespace TaskLine

namespace Markup

/-! ## Where an opening tag ends -/

/-- Where the reading of a tag stands behind a text. -/
def Quoting.behind (q : Quoting) (s : Text) : Quoting := s.foldl Quoting.next q

/-- A `>` stands at the offset, and not in quotes. -/
def BareGt (q : Quoting) (s : Text) (i : Nat) : Prop :=
  s[i]? = some '>' ∧ q.behind (s.take i) = .bare

instance (q : Quoting) (s : Text) (i : Nat) : Decidable (BareGt q s i) :=
  inferInstanceAs (Decidable (_ ∧ _))

/-- One tag and no more: its first `>` outside quotes is its last character. -/
structure OneTag (t : Text) : Prop where
  begins : t.head? = some '<'
  ends : BareGt .bare t (t.length - 1)
  first : ∀ i < t.length - 1, ¬BareGt .bare t i

/-- A tag is read up to its first `>` outside quotes. -/
theorem tagLength_eq_succ {q : Quoting} {s : Text} {i : Nat} (hend : BareGt q s i)
    (hfirst : ∀ j < i, ¬BareGt q s j) : tagLength q s = i + 1 := by
  induction s generalizing q i with
  | nil => cases hend.1
  | cons c s ih =>
      simp only [tagLength, Bool.and_eq_true, decide_eq_true_eq]
      cases i with
      | zero =>
          obtain ⟨hgt, hbare⟩ := hend
          exact if_pos ⟨hbare, Option.some.inj hgt⟩
      | succ i =>
          have hnot : ¬(q = .bare ∧ c = '>') := by
            rintro ⟨hbare, hgt⟩
            exact hfirst 0 (Nat.succ_pos i) ⟨congrArg some hgt, hbare⟩
          rw [if_neg hnot, ih hend fun j hj => hfirst (j + 1) (Nat.succ_lt_succ hj)]

theorem bareGt_append {q : Quoting} {s : Text} {i : Nat} (hi : i < s.length) (u : Text) :
    BareGt q (s ++ u) i ↔ BareGt q s i := by
  rw [BareGt, BareGt, List.getElem?_append_left hi, List.take_append_of_le_length (Nat.le_of_lt hi)]

theorem OneTag.length_pos {t : Text} (h : OneTag t) : 0 < t.length := by
  refine List.length_pos_of_ne_nil ?_
  rintro rfl
  cases h.begins

theorem OneTag.wholeTag {t : Text} (h : OneTag t) : WholeTag t := by
  have hpos := h.length_pos
  refine ⟨List.head?_eq_some_iff.mp h.begins, fun u => ?_⟩
  have hend := (bareGt_append (by omega) u).mpr h.ends
  rw [tagLength_eq_succ hend fun j hj => ?_, Nat.sub_add_cancel hpos]
  exact fun hgt => h.first j hj ((bareGt_append (by omega) u).mp hgt)

theorem OneTag.openingTag_append {t : Text} (h : OneTag t) (s : Text) : openingTag (t ++ s) = t :=
  Markup.openingTag_append h.wholeTag s

theorem tagLength_take (q : Quoting) (s : Text) :
    tagLength q (s.take (tagLength q s)) = tagLength q s := by
  induction s generalizing q with
  | nil => rfl
  | cons c s ih =>
      rw [tagLength]
      split
      next hend => rw [List.take_succ_cons, tagLength, if_pos hend]
      next hgo => rw [List.take_succ_cons, tagLength, if_neg hgo, ih]

/-- An opening tag is its own opening tag. -/
theorem openingTag_openingTag (s : Text) : openingTag (openingTag s) = openingTag s := by
  by_cases hs : s.head? = some '<'
  · obtain ⟨cs, rfl⟩ := List.head?_eq_some_iff.mp hs
    have htag : openingTag ('<' :: cs) = ('<' :: cs).take (tagLength .bare ('<' :: cs)) :=
      if_pos rfl
    have hhead : (('<' :: cs).take (tagLength .bare ('<' :: cs))).head? = some '<' := by
      obtain ⟨n, hn⟩ := Nat.exists_eq_add_one_of_ne_zero
        (Nat.pos_iff_ne_zero.mp (tagLength_pos .bare '<' cs))
      rw [hn]
      rfl
    rw [htag, openingTag, if_pos hhead, tagLength_take, List.take_take, Nat.min_self]
  · have hself : openingTag s = s := if_neg hs
    rw [hself, hself]

/-! ## What the opening tag says -/

namespace Template

variable {w w' : Text}

/-- The wrappers say the same of themselves. -/
structure SayAlike (t t' : Template) : Prop where
  key : t.key = t'.key
  order : t.order = t'.order
  props : t.props = t'.props

theorem sayAlike_read (h : openingTag w = openingTag w') : SayAlike (read w) (read w') := by
  constructor <;> simp only [read, h]

theorem SayAlike.place_eq {t t' : Template} (h : SayAlike t t') : t.place = t'.place := by
  have htype : t.assignType = t'.assignType := by rw [assignType, assignType, h.props]
  rw [place, place, h.key, htype, h.order]

end Template

/-- What stands behind the opening tag of a wrapper is replaced, or the wrapper is left as it is. -/
inductive Refilled : Text → Text → Prop
  | same (w : Text) : Refilled w w
  | filled {t : Text} (ht : OneTag t) (a b : Text) : Refilled (t ++ a) (t ++ b)

theorem Refilled.openingTag_eq {w w' : Text} (h : Refilled w w') :
    openingTag w = openingTag w' := by
  cases h with
  | same => rfl
  | filled ht a b => rw [ht.openingTag_append, ht.openingTag_append]

end Markup

open Markup (Template openingTag Refilled OneTag)
open Markup.Template (SayAlike)

/-! ## Seats -/

/-- Which wrappers of a list are in which slot, by their numbers in the list. -/
structure Seats where
  parentLink : Option Nat
  itemType : Option Nat
  assignee : Option Nat
  delegate : Option Nat
  states : List Nat
  others : List Nat
  /-- The other wrappers in the order in which they are written. -/
  ranked : List Nat
  metadata : List Nat
deriving DecidableEq, Repr

namespace Seats

/-- Whether the wrapper with this opening tag, or this wrapper, takes the place. -/
def takes (p : Template.Place) (w : Text) : Bool := decide ((Template.read w).place = p)

/-- The order of the other wrappers. -/
def ahead (v w : Text) : Bool := Task.otherBefore (.read v) (.read w)

/-- The texts that take the place, with their numbers. -/
def taking (p : Template.Place) (ws : List Text) : List (Text × Nat) :=
  ws.zipIdx.filter fun x => takes p x.1

/-- The seats of wrappers with these opening tags. -/
def ofTags (tags : List Text) : Seats where
  parentLink := tags.findIdx? (takes .parentLink)
  itemType := tags.findIdx? (takes .itemType)
  assignee := tags.findIdx? (takes .assignee)
  delegate := tags.findIdx? (takes .delegate)
  states := (taking .state tags).map Prod.snd
  others := (taking .other tags).map Prod.snd
  ranked := (sortBy (fun x y => ahead x.1 y.1) (taking .other tags)).map Prod.snd
  metadata := (taking .metadata tags).map Prod.snd

/-- The wrapper of a list that has a number. -/
def one (ws : List Text) (i : Option Nat) : Option Text := i.bind (ws[·]?)

/-- The wrappers of a list that have some numbers. -/
def many (ws : List Text) (is : List Nat) : List Text := is.filterMap (ws[·]?)

/-- The wrappers of a list in their slots. -/
def slots (seats : Seats) (ws : List Text) : Slots where
  parentLink := (one ws seats.parentLink).map .read
  itemType := (one ws seats.itemType).map .read
  assignee := (one ws seats.assignee).map .read
  delegate := (one ws seats.delegate).map .read
  states := (many ws seats.states).map .read
  others := (many ws seats.others).map .read
  metadata := (many ws seats.metadata).map .read

/-- The pieces of a task with the wrappers of a list where they are written. -/
def pieces (seats : Seats) (ws : List Text) (task : Task) (ov : Overrides) : Pieces :=
  let assignee := ov.assignee.resolve (one ws seats.assignee)
  let delegate := ov.delegate.resolve (one ws seats.delegate)
  { head := task.head
    text := task.text
    parentLink := one ws seats.parentLink
    itemType := one ws seats.itemType
    state := present (some (Text.join [' '] (many ws seats.states)))
    others := many ws seats.ranked
    assignee
    delegate := if (present assignee).isSome then delegate else none
    metadata := many ws seats.metadata
    dates := task.dates
    blockId := task.blockId }

/-! ### The opening tag is enough -/

theorem sayAlike_openingTag (w : Text) : SayAlike (.read (openingTag w)) (.read w) :=
  Template.sayAlike_read (Markup.openingTag_openingTag w)

theorem takes_openingTag (p : Template.Place) (w : Text) : takes p (openingTag w) = takes p w := by
  rw [takes, takes, (sayAlike_openingTag w).place_eq]

theorem ahead_openingTag (v w : Text) : ahead (openingTag v) (openingTag w) = ahead v w := by
  rw [ahead, ahead, Task.otherBefore, Task.otherBefore, (sayAlike_openingTag v).order,
    (sayAlike_openingTag w).order]

theorem taking_openingTag (p : Template.Place) (ws : List Text) :
    taking p (ws.map openingTag) = (taking p ws).map (Prod.map openingTag id) := by
  rw [taking, taking, List.zipIdx_map, List.filter_map]
  congr 2
  funext x
  exact takes_openingTag p x.1

theorem map_snd_map (xs : List (Text × Nat)) :
    (xs.map (Prod.map openingTag id)).map Prod.snd = xs.map Prod.snd := by
  rw [List.map_map]
  rfl

theorem ofTags_openingTag (ws : List Text) : ofTags (ws.map openingTag) = ofTags ws := by
  have hone : ∀ p, (ws.map openingTag).findIdx? (takes p) = ws.findIdx? (takes p) := fun p => by
    rw [List.findIdx?_map]
    congr 1
    funext w
    exact takes_openingTag p w
  simp only [ofTags, hone, taking_openingTag, sortBy_map, map_snd_map, Prod.map_fst,
    ahead_openingTag]

/-! ### The wrappers at their numbers -/

/-- Numbered wrappers are found in the list again. -/
theorem many_map_snd {ws : List Text} {xs : List (Text × Nat)} (h : ∀ x ∈ xs, x ∈ ws.zipIdx) :
    many ws (xs.map Prod.snd) = xs.map Prod.fst := by
  rw [many, List.filterMap_map, ← List.filterMap_eq_map]
  exact List.filterMap_congr fun x hx => List.mem_zipIdx_iff_getElem?.mp (h x hx)

theorem mem_zipIdx_of_mem_taking {p : Template.Place} {ws : List Text} {x : Text × Nat}
    (hx : x ∈ taking p ws) : x ∈ ws.zipIdx :=
  (List.mem_filter.mp hx).1

theorem map_fst_taking (p : Template.Place) (ws : List Text) :
    (taking p ws).map Prod.fst = ws.filter (takes p) := by
  conv_rhs => rw [← List.zipIdx_map_fst 0 ws, List.filter_map]
  rfl

theorem many_taking (p : Template.Place) (ws : List Text) :
    many ws ((taking p ws).map Prod.snd) = ws.filter (takes p) := by
  rw [many_map_snd fun _ => mem_zipIdx_of_mem_taking, map_fst_taking]

theorem many_ranked (ws : List Text) :
    many ws (ofTags ws).ranked = sortBy ahead (ws.filter (takes .other)) := by
  rw [ofTags, many_map_snd fun _ hx => mem_zipIdx_of_mem_taking (mem_sortBy.mp hx),
    ← map_fst_taking, sortBy_map]

theorem one_findIdx? (p : Template.Place) (ws : List Text) :
    one ws (ws.findIdx? (takes p)) = ws.find? (takes p) :=
  List.find?_eq_bind_findIdx?_getElem?.symm

theorem slots_ofTags (ws : List Text) : Slots.ofWrappers ws = (ofTags ws).slots ws := by
  simp only [slots, ofTags, one_findIdx?, many_taking, Slots.ofWrappers, Slots.ofTemplates_eq,
    List.find?_map, List.filter_map]
  rfl

theorem pieces_ofTags (ws : List Text) (task : Task) (ov : Overrides) :
    Task.pieces { task with slots := .ofWrappers ws } ov = (ofTags ws).pieces ws task ov := by
  have hone : ∀ o : Option Text, (o.map Template.read).map (·.html) = o := by
    rintro (_ | w) <;> rfl
  have hmany : ∀ vs : List Text, (vs.map Template.read).map (·.html) = vs := fun vs => by
    rw [List.map_map]
    exact List.map_id vs
  have hothers : (sortBy Task.otherBefore ((ofTags ws).slots ws).others).map (·.html) =
      many ws (ofTags ws).ranked := by
    rw [many_ranked, ← many_taking, slots, sortBy_map, hmany]
    rfl
  rw [slots_ofTags, Task.pieces, pieces, hothers]
  simp only [slots, hone, hmany]

end Seats

/-! ## Other content -/

theorem map_openingTag_eq {ws ws' : List Text} (h : List.Forall₂ Refilled ws ws') :
    ws.map openingTag = ws'.map openingTag := by
  induction h with
  | nil => rfl
  | cons hw _ ih => rw [List.map_cons, List.map_cons, hw.openingTag_eq, ih]

/-- What stands behind the opening tag of a wrapper changes nothing of what the wrapper says. When
wrappers of a list are given other content, each of them keeps the seat that the opening tags tell,
in the slots and in the pieces that are written. -/
theorem seated_by_tags {t : Text} (ht : OneTag t) {ws ws' : List Text}
    (h : List.Forall₂ Refilled ws ws') :
    (∀ a b, SayAlike (.read (t ++ a)) (.read (t ++ b))) ∧
      let seats := Seats.ofTags (ws.map openingTag)
      Slots.ofWrappers ws = seats.slots ws ∧ Slots.ofWrappers ws' = seats.slots ws' ∧
        ∀ (task : Task) (ov : Overrides),
          Task.pieces { task with slots := .ofWrappers ws } ov = seats.pieces ws task ov ∧
          Task.pieces { task with slots := .ofWrappers ws' } ov = seats.pieces ws' task ov := by
  have hws : Seats.ofTags (ws.map openingTag) = Seats.ofTags ws := Seats.ofTags_openingTag ws
  have hws' : Seats.ofTags (ws.map openingTag) = Seats.ofTags ws' := by
    rw [map_openingTag_eq h, Seats.ofTags_openingTag]
  refine ⟨fun a b => Template.sayAlike_read (Refilled.filled ht a b).openingTag_eq, ?_, ?_,
    fun task ov => ⟨?_, ?_⟩⟩
  · rw [hws, Seats.slots_ofTags]
  · rw [hws', Seats.slots_ofTags]
  · rw [hws, Seats.pieces_ofTags]
  · rw [hws', Seats.pieces_ofTags]

/-- The opening tag of an assignee, with a `>` in quotes. -/
def assigneeTag : Text :=
  ("<span title=\"a > b\" data-template-key=\"members.assignee\" " ++
    "data-assign-type=\"assignee\">").toList

/-- A state. -/
def doneState : Text :=
  "<span data-template-key=\"k\" data-order-tag=\"state\">done</span>".toList

/-- Content that could be taken for a delegate and for a state, and with a quote left open. -/
def rivalContent : Text :=
  ("<span data-template-key=\"members.assignee\" data-assign-type=\"delegate\" " ++
    "data-order-tag=\"state\">\"x</span>").toList

/-- The assignee is an assignee whatever is written for the name, and the state is a state. -/
theorem seated_by_tags_rivalContent :
    let ws := [doneState, assigneeTag ++ "Ann</span>".toList]
    let ws' := [doneState, assigneeTag ++ rivalContent]
    let seats := Seats.ofTags (ws.map openingTag)
    OneTag assigneeTag ∧ List.Forall₂ Refilled ws ws' ∧
      seats.states = [0] ∧ seats.assignee = some 1 ∧ seats.delegate = none ∧
      Slots.ofWrappers ws' = seats.slots ws' ∧
      Task.pieces { head := [], text := [], slots := .ofWrappers ws' } {} =
        seats.pieces ws' { head := [], text := [] } {} := by
  intro ws ws' seats
  have htag : OneTag assigneeTag := ⟨by decide, by decide, by decide +kernel⟩
  have hrefilled : List.Forall₂ Refilled ws ws' :=
    .cons (.same _) (.cons (.filled htag _ _) .nil)
  obtain ⟨-, -, hslots, hpieces⟩ := seated_by_tags htag hrefilled
  exact ⟨htag, hrefilled, by decide +kernel, by decide +kernel, by decide +kernel, hslots,
    (hpieces { head := [], text := [] } {}).2⟩

end TaskLine
