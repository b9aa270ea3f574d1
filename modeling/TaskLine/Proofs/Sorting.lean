import Mathlib.Data.Char
import Mathlib.Data.List.Basic
import TaskLine.Order

/-!
# Sorting

What insertion sort makes of a list, for any way of comparing. A list that is
in order is left alone (`sortBy_eq_self`), sorting puts every list in order
(`pairwise_sortBy`), and it is stable: elements that compare equal stand as
they did before (`pairwise_sortBy_of_pairwise`).

A list whose elements are dealt out to buckets, and the buckets strung together
again, sorts back to itself if it was in order and ties were in the order of
the buckets (`sortBy_buckets`).
-/

namespace TaskLine

variable {α β : Type}

theorem mem_sortBy {le : α → α → Bool} {x : α} {xs : List α} : x ∈ sortBy le xs ↔ x ∈ xs :=
  (sortBy_perm le xs).mem_iff

theorem insertBy_of_le {le : α → α → Bool} {x : α} {ys : List α}
    (h : ∀ y ∈ ys, le x y = true) : insertBy le x ys = x :: ys := by
  cases ys with
  | nil => rfl
  | cons y ys => rw [insertBy, if_pos (h y List.mem_cons_self)]

/-- A list in order is left alone. -/
theorem sortBy_eq_self {le : α → α → Bool} {xs : List α}
    (h : xs.Pairwise fun a b => le a b = true) : sortBy le xs = xs := by
  induction xs with
  | nil => rfl
  | cons x xs ih =>
      rw [List.pairwise_cons] at h
      rw [sortBy, ih h.2, insertBy_of_le h.1]

theorem insertBy_map (f : α → β) (le : β → β → Bool) (x : α) (ys : List α) :
    insertBy le (f x) (ys.map f) = (insertBy (fun a b => le (f a) (f b)) x ys).map f := by
  induction ys with
  | nil => rfl
  | cons y ys ih =>
      rw [List.map_cons, insertBy, insertBy, ih]
      split <;> simp

/-- Sorting by what a function makes of the elements. -/
theorem sortBy_map (f : α → β) (le : β → β → Bool) (xs : List α) :
    sortBy le (xs.map f) = (sortBy (fun a b => le (f a) (f b)) xs).map f := by
  induction xs with
  | nil => rfl
  | cons x xs ih => rw [List.map_cons, sortBy, ih, insertBy_map, sortBy]

/-! ## Order and stability -/

/-- A comparison by which any list can be put in order. -/
structure Comparison (le : α → α → Bool) : Prop where
  total : ∀ a b, le a b = true ∨ le b a = true
  trans : ∀ {a b c}, le a b = true → le b c = true → le a c = true

/-- Inserting keeps an order in which ties have `R`, if the new element has `R` to all others. -/
theorem pairwise_insertBy {le : α → α → Bool} (hle : Comparison le) {R : α → α → Prop}
    {x : α} {ys : List α} (hx : ∀ y ∈ ys, R x y)
    (h : ys.Pairwise fun a b => le a b = true ∧ (le b a = true → R a b)) :
    (insertBy le x ys).Pairwise fun a b => le a b = true ∧ (le b a = true → R a b) := by
  induction ys with
  | nil => exact List.pairwise_singleton _ _
  | cons y ys ih =>
      rw [List.pairwise_cons] at h
      rw [insertBy]
      split
      · rename_i hxy
        refine .cons (fun z hz => ⟨?_, fun _ => hx z hz⟩) (List.pairwise_cons.mpr h)
        rcases List.mem_cons.mp hz with rfl | hz
        · exact hxy
        · exact hle.trans hxy (h.1 z hz).1
      · rename_i hxy
        refine .cons (fun z hz => ?_) (ih (fun z hz => hx z (.tail _ hz)) h.2)
        rcases List.mem_cons.mp ((insertBy_perm le x ys).mem_iff.mp hz) with rfl | hz
        · exact ⟨(hle.total z y).resolve_left hxy, fun h => absurd h hxy⟩
        · exact h.1 z hz

/-- Ties keep the order in which they stood: if each element of the list has `R` to those
behind it, then so has, of two that compare equal, the one in front when the list is sorted. -/
theorem pairwise_sortBy_of_pairwise {le : α → α → Bool} (hle : Comparison le)
    {R : α → α → Prop} {xs : List α} (h : xs.Pairwise R) :
    (sortBy le xs).Pairwise fun a b => le a b = true ∧ (le b a = true → R a b) := by
  induction xs with
  | nil => exact .nil
  | cons x xs ih =>
      rw [List.pairwise_cons] at h
      exact pairwise_insertBy hle (fun y hy => h.1 y (mem_sortBy.mp hy)) (ih h.2)

/-- Sorting puts a list in order. -/
theorem pairwise_sortBy {le : α → α → Bool} (hle : Comparison le) (xs : List α) :
    (sortBy le xs).Pairwise fun a b => le a b = true := by
  have h : xs.Pairwise fun _ _ => True := List.pairwise_of_forall fun _ _ => trivial
  exact (pairwise_sortBy_of_pairwise hle h).imp fun hab => hab.1

/-! ### Texts -/

theorem Text.before_asymm {a b : Text} (h : before a b = true) : before b a = false := by
  induction a generalizing b with
  | nil => cases b <;> rfl
  | cons x a ih =>
      cases b with
      | nil => cases h
      | cons y b =>
          simp only [before, Bool.or_eq_true, Bool.and_eq_true, decide_eq_true_eq] at h
          simp only [before, Bool.or_eq_false_iff, Bool.and_eq_false_iff, decide_eq_false_iff_not]
          rcases h with h | ⟨rfl, h⟩
          · exact ⟨not_lt.mpr (le_of_lt h), .inl fun heq => lt_irrefl _ (heq ▸ h)⟩
          · exact ⟨lt_irrefl _, .inr (ih h)⟩

theorem Text.before_of_not_before {a b c : Text} (hab : before b a = false)
    (hbc : before c b = false) : before c a = false := by
  induction a generalizing b c with
  | nil => cases c <;> rfl
  | cons x a ih =>
      cases b with
      | nil => cases hab
      | cons y b =>
          cases c with
          | nil => cases hbc
          | cons z c =>
              simp only [before, Bool.or_eq_false_iff, Bool.and_eq_false_iff,
                decide_eq_false_iff_not] at hab hbc ⊢
              obtain ⟨hyx, hab⟩ := hab
              obtain ⟨hzy, hbc⟩ := hbc
              refine ⟨fun hzx => hyx ?_, ?_⟩
              · exact lt_of_le_of_lt (not_lt.mp hzy) hzx
              · by_cases hzx : z = x
                · subst hzx
                  have hyz : y = z := le_antisymm (not_lt.mp hzy) (not_lt.mp hyx)
                  subst hyz
                  exact .inr (ih (hab.resolve_left (not_not.mpr rfl))
                    (hbc.resolve_left (not_not.mpr rfl)))
                · exact .inl hzx

theorem Text.comparison_atMost : Comparison Text.atMost where
  total a b := by
    simp only [atMost, Bool.not_eq_true']
    by_cases h : before b a = true
    · exact .inr (before_asymm h)
    · exact .inl (Bool.eq_false_iff.mpr h)
  trans hab hbc := by
    simp only [atMost, Bool.not_eq_true'] at hab hbc ⊢
    exact before_of_not_before hab hbc

/-! ## Buckets -/

/-- An element that stands before all others, and ties with none that it passes, comes first. -/
theorem sortBy_append_cons {le : α → α → Bool} {x : α} {as bs : List α}
    (has : ∀ a ∈ as, le x a = true ∧ le a x = false) (hbs : ∀ b ∈ bs, le x b = true) :
    sortBy le (as ++ x :: bs) = x :: sortBy le (as ++ bs) := by
  induction as with
  | nil => exact insertBy_of_le fun b hb => hbs b (mem_sortBy.mp hb)
  | cons a as ih =>
      have ih := ih fun a ha => has a (List.mem_cons_of_mem _ ha)
      rw [List.cons_append, sortBy, ih, insertBy, (has a List.mem_cons_self).2]
      rfl

/-- Deal a list in order out to buckets, put the buckets one behind the other, and sort: the
list is back, if elements that compare equal stood in the order of their buckets. -/
theorem sortBy_buckets {κ : Type} [DecidableEq κ] {le : α → α → Bool} {key : α → κ}
    {ks : List κ} (hks : ks.Nodup) {xs : List α} (hmem : ∀ x ∈ xs, key x ∈ ks)
    (h : xs.Pairwise fun a b =>
      le a b = true ∧ (le b a = true → ks.idxOf (key a) ≤ ks.idxOf (key b))) :
    sortBy le (ks.flatMap fun k => xs.filter (key · = k)) = xs := by
  induction xs with
  | nil => simp [sortBy, List.flatMap]
  | cons x xs ih =>
      rw [List.pairwise_cons] at h
      have ih := ih (fun y hy => hmem y (List.mem_cons_of_mem _ hy)) h.2
      obtain ⟨front, back, hsplit⟩ := List.append_of_mem (hmem x List.mem_cons_self)
      subst hsplit
      have hdistinct : key x ∉ front ∧ key x ∉ back := by
        simp only [List.nodup_append, List.nodup_cons, List.mem_cons] at hks
        exact ⟨fun hk => hks.2.2 _ hk _ (.inl rfl) rfl, hks.2.1.1⟩
      have hother : ∀ ls : List κ, key x ∉ ls →
          ls.flatMap (fun k => (x :: xs).filter (key · = k)) =
            ls.flatMap (fun k => xs.filter (key · = k)) := by
        intro ls hls
        refine List.flatMap_congr fun k hk => ?_
        rw [List.filter_cons_of_neg]
        simp only [decide_eq_true_eq]
        rintro rfl
        exact hls hk
      rw [List.flatMap_append, List.flatMap_cons] at ih ⊢
      rw [hother front hdistinct.1, hother back hdistinct.2,
        List.filter_cons_of_pos (by simp), List.cons_append, sortBy_append_cons, ih]
      · intro a ha
        simp only [List.mem_flatMap, List.mem_filter, decide_eq_true_eq] at ha
        obtain ⟨k, hk, hax, rfl⟩ := ha
        refine ⟨(h.1 a hax).1, ?_⟩
        rw [Bool.eq_false_iff]
        intro hle
        have hidx := (h.1 a hax).2 hle
        rw [List.idxOf_append_of_notMem hdistinct.1, List.idxOf_append_of_mem hk] at hidx
        have := List.idxOf_lt_length_iff.mpr hk
        omega
      · intro b hb
        have hb : b ∈ xs := by
          simp only [List.mem_append, List.mem_flatMap, List.mem_filter] at hb
          rcases hb with hb | ⟨k, -, hb⟩
          · exact hb.1
          · exact hb.1
        exact (h.1 b hb).1

end TaskLine
