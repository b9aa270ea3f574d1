import TaskLine.Proofs.Content

/-!
# Sorting wrappers into places

Wrappers are sorted one behind the other: a place for a single wrapper is kept by the first that
claims it, and the other places take them all (`Slots.claim`).

Each wrapper claims exactly one place, by its key and the kind of its assignment or else by its
order tag (`Template.place_eq_iff`). So nothing is kept twice, and only what claims a place that is
taken is dropped (`Slots.ofWrappers_classifies`).
-/

namespace TaskLine

open Markup (Template)

namespace Markup.Template

/-! ## What a wrapper claims -/

def IsAssignee (t : Template) : Prop :=
  t.key = assigneeKey ∧ (t.assignType = "assignee".toList ∨ t.assignType = "special".toList)

def IsDelegate (t : Template) : Prop :=
  t.key = assigneeKey ∧ t.assignType = "delegate".toList

/-- The order tag counts for a wrapper that is neither an assignee nor a delegate. -/
def IsOrdered (t : Template) (order : Option Text) : Prop :=
  ¬t.IsAssignee ∧ ¬t.IsDelegate ∧ t.order = order

/-- What a wrapper has to say to claim a place. -/
def Claims (t : Template) : Place → Prop
  | .assignee => t.IsAssignee
  | .delegate => t.IsDelegate
  | .parentLink => t.IsOrdered (some "parent-link".toList)
  | .itemType => t.IsOrdered (some "artifact-item-type".toList)
  | .state => t.IsOrdered (some "state".toList)
  | .metadata => t.IsOrdered (some "metadata".toList)
  | .other => t.IsOrdered t.order ∧ t.order ∉ [some "parent-link".toList,
      some "artifact-item-type".toList, some "state".toList, some "metadata".toList]

instance (t : Template) : Decidable t.IsAssignee := inferInstanceAs (Decidable (_ ∧ _))

instance (t : Template) : Decidable t.IsDelegate := inferInstanceAs (Decidable (_ ∧ _))

instance (t : Template) (order : Option Text) : Decidable (t.IsOrdered order) :=
  inferInstanceAs (Decidable (_ ∧ _ ∧ _))

instance (t : Template) : (p : Place) → Decidable (t.Claims p)
  | .assignee => inferInstanceAs (Decidable t.IsAssignee)
  | .delegate => inferInstanceAs (Decidable t.IsDelegate)
  | .parentLink | .itemType | .state | .metadata => inferInstanceAs (Decidable (t.IsOrdered _))
  | .other => inferInstanceAs (Decidable (_ ∧ _))

variable {t : Template} {p : Place}

theorem IsAssignee.place (h : t.IsAssignee) : t.place = .assignee := by
  rw [Template.place, if_pos h.1, if_pos]
  rw [Bool.or_eq_true, decide_eq_true_eq, decide_eq_true_eq]
  exact h.2

theorem IsDelegate.place (h : t.IsDelegate) : t.place = .delegate := by
  rw [Template.place, if_pos h.1, h.2]
  rfl

/-- A person whose kind of assignment is not known goes by the order tag, as all others do. -/
theorem place_eq_placeOfOrder (hassignee : ¬t.IsAssignee) (hdelegate : ¬t.IsDelegate) :
    t.place = placeOfOrder t.order := by
  rw [Template.place]
  split
  · rename_i hkey
    simp only [Bool.or_eq_true, decide_eq_true_eq]
    rw [if_neg fun h => hassignee ⟨hkey, h⟩, if_neg fun h => hdelegate ⟨hkey, h⟩]
  · rfl

theorem IsOrdered.place {order : Option Text} (h : t.IsOrdered order) :
    t.place = placeOfOrder order :=
  h.2.2 ▸ place_eq_placeOfOrder h.1 h.2.1

theorem Claims.place_eq (h : t.Claims p) : t.place = p := by
  cases p with
  | assignee => exact IsAssignee.place h
  | delegate => exact IsDelegate.place h
  | parentLink => exact IsOrdered.place h
  | itemType => exact IsOrdered.place h
  | state => exact IsOrdered.place h
  | metadata => exact IsOrdered.place h
  | other =>
      obtain ⟨hordered, hnone⟩ := h
      simp only [List.mem_cons, List.not_mem_nil, or_false, not_or] at hnone
      rw [hordered.place, placeOfOrder, if_neg hnone.1, if_neg hnone.2.1, if_neg hnone.2.2.1,
        if_neg hnone.2.2.2]

theorem claims_place (t : Template) : t.Claims t.place := by
  by_cases hassignee : t.IsAssignee
  · rw [hassignee.place]
    exact hassignee
  by_cases hdelegate : t.IsDelegate
  · rw [hdelegate.place]
    exact hdelegate
  rw [place_eq_placeOfOrder hassignee hdelegate, placeOfOrder]
  split
  · exact ⟨hassignee, hdelegate, ‹_›⟩
  split
  · exact ⟨hassignee, hdelegate, ‹_›⟩
  split
  · exact ⟨hassignee, hdelegate, ‹_›⟩
  split
  · exact ⟨hassignee, hdelegate, ‹_›⟩
  · rename_i hlink htype hstate hmetadata
    refine ⟨⟨hassignee, hdelegate, rfl⟩, ?_⟩
    simp only [List.mem_cons, List.not_mem_nil, or_false, not_or]
    exact ⟨hlink, htype, hstate, hmetadata⟩

theorem place_eq_iff : t.place = p ↔ t.Claims p :=
  ⟨fun h => h ▸ claims_place t, Claims.place_eq⟩

/-- A place for a single wrapper. -/
def Place.IsSingle (p : Place) : Prop := p ∈ [parentLink, itemType, assignee, delegate]

instance (p : Place) : Decidable p.IsSingle := inferInstanceAs (Decidable (_ ∈ _))

end Markup.Template

namespace Slots

/-! ## All of it -/

/-- The wrapper claims the place. -/
def claims (p : Template.Place) (w : Text) : Bool := decide ((Template.read w).Claims p)

theorem claims_iff {p : Template.Place} {w : Text} :
    claims p w = true ↔ (Template.read w).place = p := by
  rw [claims, decide_eq_true_eq, Template.place_eq_iff]

theorem find?_read (ws : List Text) (p : Template.Place) :
    (ws.map Template.read).find? (·.place = p) = (ws.find? (claims p)).map .read := by
  rw [List.find?_map]
  congr 2
  funext w
  rw [claims, Function.comp_apply, decide_eq_decide, Template.place_eq_iff]

theorem filter_read (ws : List Text) (p : Template.Place) :
    (ws.map Template.read).filter (·.place = p) = (ws.filter (claims p)).map .read := by
  rw [List.filter_map]
  congr 2
  funext w
  rw [claims, Function.comp_apply, decide_eq_decide, Template.place_eq_iff]

theorem ofWrappers_eq (ws : List Text) :
    ofWrappers ws =
      { parentLink := (ws.find? (claims .parentLink)).map .read
        itemType := (ws.find? (claims .itemType)).map .read
        assignee := (ws.find? (claims .assignee)).map .read
        delegate := (ws.find? (claims .delegate)).map .read
        states := (ws.filter (claims .state)).map .read
        others := (ws.filter (claims .other)).map .read
        metadata := (ws.filter (claims .metadata)).map .read } := by
  rw [ofWrappers, ofTemplates_eq]
  simp only [find?_read, filter_read]

theorem wrappers_ofWrappers (ws : List Text) :
    (ofWrappers ws).wrappers =
      (ws.find? (claims .parentLink)).toList ++ (ws.find? (claims .itemType)).toList ++
        ws.filter (claims .state) ++ ws.filter (claims .other) ++
        (ws.find? (claims .assignee)).toList ++ (ws.find? (claims .delegate)).toList ++
        ws.filter (claims .metadata) := by
  have hone : ∀ p, ((ws.find? (claims p)).map Template.read).toList.map (·.html) =
      (ws.find? (claims p)).toList := fun p => by cases ws.find? (claims p) <;> rfl
  simp only [wrappers, templates, ofWrappers_eq, List.map_append, hone, map_html_read]

/-- What is kept of the wrappers that claim a place. -/
theorem count_wrappers (ws : List Text) {p : Template.Place} {w : Text} (h : claims p w = true) :
    (ofWrappers ws).wrappers.count w =
      if p.IsSingle then if ws.find? (claims p) = some w then 1 else 0 else ws.count w := by
  have hplace : ∀ {q}, claims q w = true → p = q := fun hq =>
    (claims_iff.mp h).symm.trans (claims_iff.mp hq)
  have hfind : ∀ q, (ws.find? (claims q)).toList.count w =
      if p = q then if ws.find? (claims p) = some w then 1 else 0 else 0 := by
    intro q
    cases hq : ws.find? (claims q) with
    | none =>
        by_cases hpq : p = q
        · simp [hpq, hq]
        · simp [hpq]
    | some v =>
        by_cases hpq : p = q
        · simp [hpq, hq, List.count_singleton]
        · have hne : v ≠ w := fun heq => hpq (hplace (heq ▸ List.find?_some hq))
          simp [hpq, hne]
  have hfilter : ∀ q, (ws.filter (claims q)).count w = if p = q then ws.count w else 0 := by
    intro q
    split
    next hpq => exact List.count_filter (hpq ▸ h)
    next hpq =>
      exact List.count_eq_zero_of_not_mem fun hmem => hpq (hplace (List.mem_filter.mp hmem).2)
  rw [wrappers_ofWrappers]
  simp only [List.count_append, hfind, hfilter]
  cases p <;> simp [Template.Place.IsSingle]

/-- Wrappers are sorted as their steps say. Each claims one place; a place for a single wrapper goes
to the first that claims it, and the other places hold all that claim them, in their order. So of a
wrapper nothing is lost but what comes behind the first for a place for a single one. -/
theorem ofWrappers_classifies (ws : List Text) :
    ofWrappers ws = ws.foldl (fun s w => s.claim (.read w)) {} ∧
      (∀ w, ∃! p, (Template.read w).Claims p) ∧
      (ofWrappers ws).assignee = (ws.find? (claims .assignee)).map .read ∧
      (ofWrappers ws).delegate = (ws.find? (claims .delegate)).map .read ∧
      (ofWrappers ws).parentLink = (ws.find? (claims .parentLink)).map .read ∧
      (ofWrappers ws).itemType = (ws.find? (claims .itemType)).map .read ∧
      (ofWrappers ws).states = (ws.filter (claims .state)).map .read ∧
      (ofWrappers ws).metadata = (ws.filter (claims .metadata)).map .read ∧
      (ofWrappers ws).others = (ws.filter (claims .other)).map .read ∧
      ∀ p w, claims p w = true → (ofWrappers ws).wrappers.count w =
        if p.IsSingle then if ws.find? (claims p) = some w then 1 else 0 else ws.count w := by
  have hslots := ofWrappers_eq ws
  refine ⟨?_, fun w => ⟨_, Template.claims_place _, fun _ h => h.place_eq.symm⟩,
    congrArg assignee hslots, congrArg delegate hslots, congrArg parentLink hslots,
    congrArg itemType hslots, congrArg states hslots, congrArg metadata hslots,
    congrArg others hslots, fun _ _ h => count_wrappers ws h⟩
  rw [ofWrappers, ofTemplates, List.foldl_map]

end Slots

end TaskLine
