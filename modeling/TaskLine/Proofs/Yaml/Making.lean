import Mathlib.Data.List.Basic
import TaskLine.Yaml.Document

/-!
# Each key once

A mapping that is read holds each key once (`Document.distinct_of_ofText`), whatever its text says:
of equal keys the last value counts, and a member for a key that is there already takes the place of
the old one. The objects are made step by step, so what holds of them is carried through the steps
(`Make.Ensures`).
-/

namespace TaskLine

namespace Yaml

/-! ## Members -/

/-- Each key stands once in a list of members. -/
def Distinct (es : List (Value × Value)) : Prop :=
  es.Pairwise fun e f => Value.sameKey e.1 f.1 = false

theorem Value.distinct_putEntry {es : List (Value × Value)} (h : Distinct es) (key value : Value) :
    Distinct (putEntry key value es) := by
  unfold putEntry
  split
  · refine List.pairwise_map.mpr (h.imp fun {e f} hne => ?_)
    have hkey : ∀ e : Value × Value, (if sameKey e.1 key then (e.1, value) else e).1 = e.1 := by
      intro e
      split <;> rfl
    rw [hkey, hkey]
    exact hne
  · rename_i hnone
    refine List.pairwise_append.mpr ⟨h, List.pairwise_singleton .., fun e he f hf => ?_⟩
    obtain rfl := List.mem_singleton.mp hf
    exact Bool.eq_false_iff.mpr fun hsame => hnone (List.any_eq_true.mpr ⟨e, he, hsame⟩)

theorem Value.distinct_entriesOf (es : List (Value × Value)) : Distinct (entriesOf es) := by
  have hfold : ∀ done, Distinct done →
      Distinct (es.foldl (fun done e => putEntry e.1 e.2 done) done) := by
    induction es with
    | nil => exact fun _ h => h
    | cons e es ih => exact fun _ h => ih _ (distinct_putEntry h e.1 e.2)
  exact hfold [] .nil

/-- In a mapping each key stands once. -/
def Object.Distinct : Object → Prop
  | .mapping es => Yaml.Distinct es
  | .list _ | .set _ => True

/-- In each mapping among some objects each key stands once. -/
def EachDistinct (objects : Objects) : Prop := ∀ id o, (id, o) ∈ objects → o.Distinct

theorem EachDistinct.cons {objects : Objects} {o : Object} (ho : o.Distinct) (id : Nat)
    (h : EachDistinct objects) : EachDistinct ((id, o) :: objects) := by
  intro id' o' hmem
  rcases List.mem_cons.mp hmem with heq | hmem
  · obtain ⟨-, rfl⟩ := Prod.mk.inj heq
    exact ho
  · exact h id' o' hmem

/-! ## Steps -/

namespace Make

variable {α β : Type} {P : Objects → Prop} {Q : α → Prop} {Q' : β → Prop} {x : Make α}
  {f : α → Make β}

/-- A step that keeps what holds of the objects, and gives something of which more holds. -/
def Ensures (P : Objects → Prop) (x : Make α) (Q : α → Prop) : Prop :=
  ∀ s a s', x s = some (a, s') → P s.objects → P s'.objects ∧ Q a

theorem Ensures.pure {a : α} (h : Q a) : Ensures P (pure a) Q := by
  rintro s a s' ⟨⟩ hP
  exact ⟨hP, h⟩

theorem Ensures.done (a : α) : Ensures P (Pure.pure a) fun _ => True := .pure trivial

theorem Ensures.failure : Ensures P (failure : Make α) Q := nofun

theorem Ensures.lift (x : Option α) : Ensures P (liftM x : Make α) fun _ => True := by
  intro s a s' h hP
  cases x with
  | none => cases h
  | some b =>
      obtain ⟨rfl, rfl⟩ := Prod.mk.inj (Option.some.inj h)
      exact ⟨hP, trivial⟩

theorem Ensures.bind (hx : Ensures P x Q) (hf : ∀ a, Q a → Ensures P (f a) Q') :
    Ensures P (x >>= f) Q' := by
  intro s b s' h hP
  obtain ⟨⟨a, t⟩, hxs, hfa⟩ := Option.bind_eq_some_iff.mp h
  obtain ⟨hP, hQ⟩ := hx s a t hxs hP
  exact hf a hQ t b s' hfa hP

theorem Ensures.get : Ensures P MonadState.get fun s => P s.objects := by
  rintro s a s' ⟨⟩ hP
  exact ⟨hP, hP⟩

theorem Ensures.set {s : Making} (h : P s.objects) :
    Ensures P (set s : Make PUnit) fun _ => True := by
  rintro _ a s' ⟨⟩ -
  exact ⟨h, trivial⟩

theorem Ensures.mapM {γ : Type} {g : γ → Make α} (h : ∀ c, Ensures P (g c) fun _ => True)
    (cs : List γ) : Ensures P (cs.mapM g) fun _ => True := by
  induction cs with
  | nil => exact .done []
  | cons c cs ih =>
      rw [List.mapM_cons]
      refine (h c).bind fun _ _ => ?_
      exact ih.bind fun _ _ => .done _

theorem ensures_meet (id : Nat) : Ensures P (meet id) fun _ => True := by
  refine Ensures.get.bind fun s hs => ?_
  split
  · exact Ensures.bind (Ensures.set (by exact hs)) fun _ _ => .done _
  · exact .done _

theorem ensures_value (id : Nat) : Ensures P (value id) fun _ => True := by
  refine Ensures.get.bind fun s hs => ?_
  dsimp only
  split
  · exact ensures_meet id
  · exact ensures_meet id
  · exact ensures_meet id
  · exact ensures_meet id
  · split
    · exact .done _
    · exact .failure

theorem ensures_key (id : Nat) : Ensures P (key id) fun _ => True := by
  refine (ensures_value id).bind fun v _ => ?_
  split
  · exact .failure
  · exact .done _

theorem ensures_entries (id : Nat) : Ensures P (entries id) Distinct := by
  refine Ensures.get.bind fun s hs => ?_
  split
  · exact .failure
  · refine Ensures.bind (Ensures.set (by exact hs)) fun _ _ => ?_
    refine (Ensures.lift _).bind fun ps _ => ?_
    refine (Ensures.mapM (fun p => ?_) ps).bind fun es _ => .pure (Value.distinct_entriesOf es)
    refine (ensures_key p.1).bind fun _ _ => ?_
    exact (ensures_value p.2).bind fun _ _ => .done _

theorem ensures_pair (id : Nat) : Ensures EachDistinct (pair id) fun _ => True := by
  refine Ensures.get.bind fun s _ => ?_
  split
  · refine (ensures_value _).bind fun _ _ => (ensures_value _).bind fun _ _ => ?_
    refine Ensures.get.bind fun s hs => ?_
    refine Ensures.bind (Ensures.set (EachDistinct.cons ?_ s.nextId hs)) fun _ _ => .done _
    exact trivial
  · exact .failure

theorem ensures_object (id : Nat) : Ensures EachDistinct (object id) Object.Distinct := by
  refine Ensures.get.bind fun s _ => ?_
  dsimp only
  split
  · exact (Ensures.mapM ensures_value _).bind fun _ _ => .pure trivial
  · exact (Ensures.mapM ensures_pair _).bind fun _ _ => .pure trivial
  · exact (ensures_entries id).bind fun _ hes => .pure hes
  · exact (ensures_entries id).bind fun _ _ => .pure trivial
  · exact .failure

theorem ensures_objects (steps : Nat) : Ensures EachDistinct (objects steps) fun _ => True := by
  induction steps with
  | zero => exact .done _
  | succ n ih =>
      refine Ensures.get.bind fun s hs => ?_
      split
      · exact .done _
      · refine Ensures.bind (Ensures.set (by exact hs)) fun _ _ => ?_
        refine (ensures_object _).bind fun o ho => ?_
        refine Ensures.bind (Q := fun _ => True) ?_ fun _ _ => ih
        rintro s a s' ⟨⟩ hs
        exact ⟨hs.cons ho _, trivial⟩

end Make

/-! ## Documents -/

theorem Document.distinct_of_ofText {s : Text} {d : Document} (h : ofText? s = some d) :
    EachDistinct d.objects := by
  obtain ⟨⟨ns, root⟩, -, h⟩ := Option.bind_eq_some_iff.mp h
  dsimp only at h
  unfold ofNodes? at h
  split at h
  · obtain rfl := Option.some.inj h
    exact nofun
  · rename_i id
    obtain ⟨⟨v, s'⟩, hmake, rfl⟩ := Option.map_eq_some_iff.mp h
    have hensures : Make.Ensures EachDistinct (do
        let v ← Make.value id
        Make.objects (ns.size + 1)
        return v) fun _ => True := by
      refine (Make.ensures_value id).bind fun v _ => ?_
      exact (Make.ensures_objects (ns.size + 1)).bind fun _ _ => .done v
    exact (hensures _ v s' hmake nofun).1

end Yaml

end TaskLine
