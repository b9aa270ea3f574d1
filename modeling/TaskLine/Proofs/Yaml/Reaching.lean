import TaskLine.Proofs.Yaml.Renumbering

/-!
# What a value leads to

A value leads to itself, and to whatever the parts of its object lead to (`Leads`). The search goes
from layer to layer and follows no number twice. It finds exactly what the value leads to
(`mem_reachable_iff`), since every layer but the last takes up an object that none before it did, so
that the objects run out before the steps do.

Whether a value holds a whole number that is too long to be written is therefore the same in
documents that say the same (`Renumbering.exceedsDigits_of_matches`).
-/

namespace TaskLine.Yaml

variable {objects objects' : Objects} {R : Nat → Nat → Prop} {v w x : Value} {id : Nat} {o : Object}

/-- A value leads to itself, and to what the parts of its object lead to. -/
inductive Leads (objects : Objects) : Value → Value → Prop
  | refl (v : Value) : Leads objects v v
  | part {v w x : Value} {id : Nat} {o : Object} (hid : v.id? = some id)
      (ho : objects.lookup id = some o) (hw : w ∈ o.parts) (h : Leads objects w x) :
      Leads objects v x

theorem Leads.congr (h : Leads objects v x) (hsame : ∀ id, objects.lookup id = objects'.lookup id) :
    Leads objects' v x := by
  induction h with
  | refl v => exact .refl v
  | part hid ho hw _ ih => exact .part hid (hsame _ ▸ ho) hw ih

/-- A list that holds the parts of all that it holds leads to nothing else. -/
theorem Leads.mem_of_closed {vs : List Value} (h : Leads objects v x) (hv : v ∈ vs)
    (hclosed : ∀ {u w id o}, u ∈ vs → u.id? = some id → objects.lookup id = some o → w ∈ o.parts →
      w ∈ vs) : x ∈ vs := by
  induction h with
  | refl v => exact hv
  | part hid ho hw _ ih => exact ih (hclosed hv hid ho hw)

/-- What a value leads to, one that is the same leads to as well. -/
theorem Leads.exists_matches (hR : Renumbering R objects objects') (h : Leads objects v x)
    (hv : v.Matches R w) : ∃ y, Leads objects' w y ∧ x.Matches R y := by
  induction h generalizing w with
  | refl v => exact ⟨w, .refl w, hv⟩
  | @part v u x id o hid ho hu _ ih =>
      have hids := hv.id
      rw [hid] at hids
      cases hw : w.id? with
      | none => rw [hw] at hids; cases hids
      | some id' =>
          rw [hw, Option.rel_some_some] at hids
          have hobject := hR.object hids
          rw [ho] at hobject
          cases ho' : objects'.lookup id' with
          | none => rw [ho'] at hobject; cases hobject
          | some o' =>
              rw [ho', Option.rel_some_some] at hobject
              obtain ⟨u', hu', hmatch⟩ := hobject.exists_mem_parts hu
              obtain ⟨y, hy, hxy⟩ := ih hmatch
              exact ⟨y, .part hw ho' hu' hy, hxy⟩

namespace Object

variable {seen : List Nat} {vs : List Value} {n : Nat}

/-! ## One layer of the search -/

/-- The numbers that are met for the first time in a layer. -/
def fresh (seen : List Nat) (vs : List Value) : List Nat :=
  ((vs.filterMap Value.id?).filter fun id => !seen.contains id).eraseDups

/-- The objects that go by numbers. -/
def found (objects : Objects) (ids : List Nat) : List Object :=
  ids.filterMap fun id => objects.lookup id

theorem mem_fresh_iff : id ∈ fresh seen vs ↔ (∃ v ∈ vs, v.id? = some id) ∧ id ∉ seen := by
  simp [fresh]

theorem mem_found_iff {ids : List Nat} :
    o ∈ found objects ids ↔ ∃ id ∈ ids, objects.lookup id = some o := List.mem_filterMap

theorem reachable_succ (objects : Objects) (n : Nat) (seen : List Nat) (vs : List Value) :
    reachable objects (n + 1) seen vs =
      if (found objects (fresh seen vs)).isEmpty then vs
      else vs ++ reachable objects n (fresh seen vs ++ seen)
        ((found objects (fresh seen vs)).flatMap parts) := rfl

theorem subset_reachable (h : v ∈ vs) : v ∈ reachable objects n seen vs := by
  cases n with
  | zero => exact h
  | succ n =>
      rw [reachable_succ]
      split
      · exact h
      · exact List.mem_append_left _ h

/-! ## The whole search -/

/-- All that is found is led to. -/
theorem exists_leads_of_mem_reachable (h : x ∈ reachable objects n seen vs) :
    ∃ v ∈ vs, Leads objects v x := by
  induction n generalizing seen vs with
  | zero => exact ⟨x, h, .refl x⟩
  | succ n ih =>
      rw [reachable_succ] at h
      split at h
      · exact ⟨x, h, .refl x⟩
      rcases List.mem_append.mp h with h | h
      · exact ⟨x, h, .refl x⟩
      obtain ⟨w, hw, hleads⟩ := ih h
      obtain ⟨o, ho, hw⟩ := List.mem_flatMap.mp hw
      obtain ⟨id, hid, ho⟩ := mem_found_iff.mp ho
      obtain ⟨⟨v, hv, hvid⟩, -⟩ := mem_fresh_iff.mp hid
      exact ⟨v, hv, .part hvid ho hw hleads⟩

/-- The objects that were not taken up yet. -/
def unseen (objects : Objects) (seen : List Nat) : Nat :=
  objects.countP fun p => !seen.contains p.1

theorem unseen_cons (p : Nat × Object) (objects : Objects) (seen : List Nat) :
    unseen (p :: objects) seen = unseen objects seen + if p.1 ∈ seen then 0 else 1 := by
  simp [unseen, List.countP_cons]

theorem unseen_append_le (objects : Objects) (ids seen : List Nat) :
    unseen objects (ids ++ seen) ≤ unseen objects seen := by
  refine List.countP_mono_left fun p _ hp => ?_
  simp only [Bool.not_eq_true', List.contains_eq_mem, decide_eq_false_iff_not, List.mem_append,
    not_or] at hp ⊢
  exact hp.2

theorem unseen_lt {ids : List Nat} (hid : id ∈ ids) (hseen : id ∉ seen)
    (ho : objects.lookup id = some o) : unseen objects (ids ++ seen) < unseen objects seen := by
  induction objects with
  | nil => cases ho
  | cons p objects ih =>
      rw [unseen_cons, unseen_cons]
      by_cases hp : id = p.1
      · have hmem : p.1 ∈ ids ++ seen := List.mem_append_left _ (hp ▸ hid)
        rw [if_pos hmem, if_neg (hp ▸ hseen)]
        exact Nat.lt_succ_of_le (unseen_append_le objects ids seen)
      · rw [List.lookup_cons, beq_false_of_ne hp] at ho
        refine Nat.add_lt_add_of_lt_of_le (ih ho) ?_
        by_cases hmem : p.1 ∈ seen
        · rw [if_pos (List.mem_append_right _ hmem)]
          exact Nat.zero_le _
        · rw [if_neg hmem]
          split
          · exact Nat.zero_le _
          · exact Nat.le_refl _

/-- With a step for each object that was not taken up yet, the search ends only when it has the
parts of everything that it found. -/
theorem parts_subset_reachable (hn : unseen objects seen < n) (hv : v ∈ reachable objects n seen vs)
    (hid : v.id? = some id) (hseen : id ∉ seen) (ho : objects.lookup id = some o)
    (hw : w ∈ o.parts) :
    w ∈ reachable objects n seen vs := by
  induction n generalizing seen vs with
  | zero => cases hn
  | succ n ih =>
      have hparts : id ∈ fresh seen vs →
          w ∈ reachable objects n (fresh seen vs ++ seen)
            ((found objects (fresh seen vs)).flatMap parts) := fun hfresh =>
        subset_reachable (List.mem_flatMap.mpr ⟨o, mem_found_iff.mpr ⟨id, hfresh, ho⟩, hw⟩)
      rw [reachable_succ] at hv ⊢
      by_cases hempty : (found objects (fresh seen vs)).isEmpty
      · rw [if_pos hempty] at hv
        have hfresh : id ∈ fresh seen vs := mem_fresh_iff.mpr ⟨⟨v, hv, hid⟩, hseen⟩
        have hmem := mem_found_iff.mpr ⟨id, hfresh, ho⟩
        rw [List.isEmpty_iff.mp hempty] at hmem
        cases hmem
      rw [if_neg hempty] at hv ⊢
      refine List.mem_append_right _ ?_
      rcases List.mem_append.mp hv with hv | hv
      · exact hparts (mem_fresh_iff.mpr ⟨⟨v, hv, hid⟩, hseen⟩)
      -- found in a later layer: its number was met here too, or the rest of the search has it
      by_cases hfresh : id ∈ fresh seen vs
      · exact hparts hfresh
      refine ih ?_ hv (by simp [hfresh, hseen])
      obtain ⟨p, hp⟩ := List.exists_mem_of_ne_nil _ fun hnil => hempty (List.isEmpty_iff.mpr hnil)
      obtain ⟨id', hid', hp⟩ := mem_found_iff.mp hp
      exact Nat.lt_of_lt_of_le (unseen_lt hid' (mem_fresh_iff.mp hid').2 hp) (Nat.le_of_lt_succ hn)

/-- The search finds exactly what a value leads to. -/
theorem mem_reachable_iff :
    x ∈ reachable objects (objects.length + 1) [] [v] ↔ Leads objects v x := by
  constructor
  · intro h
    obtain ⟨w, hw, hleads⟩ := exists_leads_of_mem_reachable h
    exact List.mem_singleton.mp hw ▸ hleads
  · intro h
    have hn : unseen objects [] < objects.length + 1 := Nat.lt_succ_of_le List.countP_le_length
    exact h.mem_of_closed (subset_reachable List.mem_cons_self)
      fun hmem hid ho hw => parts_subset_reachable hn hmem hid List.not_mem_nil ho hw

end Object

/-! ## Numbers that are too long -/

theorem Value.exceedsDigits_iff :
    v.exceedsDigits objects = true ↔
      ∃ n, Leads objects v (.int n) ∧ Text.exceedsDigits n = true := by
  rw [exceedsDigits, List.any_eq_true]
  constructor
  · rintro ⟨x, hx, hlong⟩
    cases x with
    | int n => exact ⟨n, Object.mem_reachable_iff.mp hx, hlong⟩
    | _ => cases hlong
  · rintro ⟨n, hleads, hlong⟩
    exact ⟨.int n, Object.mem_reachable_iff.mpr hleads, hlong⟩

theorem Value.exceedsDigits_congr (h : ∀ id, objects.lookup id = objects'.lookup id) :
    v.exceedsDigits objects = v.exceedsDigits objects' := by
  rw [Bool.eq_iff_iff, exceedsDigits_iff, exceedsDigits_iff]
  exact exists_congr fun n => and_congr_left fun _ =>
    ⟨fun hleads => hleads.congr h, fun hleads => hleads.congr fun id => (h id).symm⟩

theorem Renumbering.exceedsDigits_of_matches (hR : Renumbering R objects objects')
    (hv : v.Matches R w) (h : v.exceedsDigits objects = true) :
    w.exceedsDigits objects' = true := by
  obtain ⟨n, hleads, hlong⟩ := Value.exceedsDigits_iff.mp h
  obtain ⟨y, hy, hmatch⟩ := hleads.exists_matches hR hv
  obtain rfl := hmatch.eq_of_plain rfl
  exact Value.exceedsDigits_iff.mpr ⟨n, hy, hlong⟩

end TaskLine.Yaml
