import TaskLine.Text.Basic

/-!
# Order

Texts are ordered by code point, a text before every longer one that it
begins. Lists are sorted by insertion, and an element goes before those that
compare equal to it, so elements that compare equal keep their order.
-/

namespace TaskLine

namespace Text

/-- Whether one text stands strictly before another. -/
def before : Text → Text → Bool
  | _, [] => false
  | [], _ :: _ => true
  | a :: as, b :: bs => a < b || (a = b && before as bs)

/-- Whether one text stands before another or equals it. -/
def atMost (a b : Text) : Bool := !before b a

end Text

/-- Put `x` in front of the first element that it may precede. -/
def insertBy {α : Type} (le : α → α → Bool) (x : α) : List α → List α
  | [] => [x]
  | y :: ys => if le x y then x :: y :: ys else y :: insertBy le x ys

/-- The list in the order `le`; elements that are equal in it stay in place. -/
def sortBy {α : Type} (le : α → α → Bool) : List α → List α
  | [] => []
  | x :: xs => insertBy le x (sortBy le xs)

theorem insertBy_perm {α : Type} (le : α → α → Bool) (x : α) (ys : List α) :
    (insertBy le x ys).Perm (x :: ys) := by
  induction ys with
  | nil => exact .refl _
  | cons y ys ih =>
    unfold insertBy
    split
    · exact .refl _
    · exact (ih.cons y).trans (.swap x y ys)

/-- Sorting neither loses an element nor adds one. -/
theorem sortBy_perm {α : Type} (le : α → α → Bool) (xs : List α) :
    (sortBy le xs).Perm xs := by
  induction xs with
  | nil => exact .refl _
  | cons x xs ih => exact (insertBy_perm le x _).trans (ih.cons x)

end TaskLine
