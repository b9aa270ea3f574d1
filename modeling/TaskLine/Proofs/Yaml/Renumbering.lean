import Mathlib.Data.List.Forall2
import Mathlib.Logic.Relation
import TaskLine.Proofs.Sorting
import TaskLine.Yaml.Document

/-!
# Documents up to their numbers

Objects and moments go by numbers, which only tell whether two of them are the same one. What is
written of a document is read with other numbers, and with the members of its mappings in another
order. It says the same all the same: there is a one-to-one relation between the numbers of the two
documents (`Renumbering`) under which all that is found under them is alike (`Document.Same`).

Which object is which matters as soon as one of them is changed. So it is not enough that two
documents look the same when they are followed from the root.
-/

namespace TaskLine.Yaml

variable {R S : Nat → Nat → Prop} {α β γ : Type}

instance decidableRel {r : α → β → Prop} [∀ a b, Decidable (r a b)] :
    ∀ x y, Decidable (Option.Rel r x y)
  | some _, some _ => decidable_of_iff _ Option.rel_some_some.symm
  | none, none => isTrue .none
  | some _, none => isFalse nofun
  | none, some _ => isFalse nofun

variable {r : α → β → Prop} {s : β → γ → Prop} {t : α → γ → Prop}

theorem rel_trans {x : Option α} {y : Option β} {z : Option γ} (h : Option.Rel r x y)
    (h' : Option.Rel s y z) (hcomp : ∀ {a b c}, r a b → s b c → t a c) : Option.Rel t x z := by
  cases h with
  | none =>
      cases h'
      exact .none
  | some h =>
      cases h' with
      | some h' => exact .some (hcomp h h')

theorem forall₂_trans {xs : List α} {ys : List β} {zs : List γ} (h : List.Forall₂ r xs ys)
    (h' : List.Forall₂ s ys zs) (hcomp : ∀ {a b c}, r a b → s b c → t a c) :
    List.Forall₂ t xs zs := by
  induction h generalizing zs with
  | nil =>
      cases h'
      exact .nil
  | cons h _ ih =>
      cases h' with
      | cons h' htail => exact .cons (hcomp h h') (ih htail)

/-! ## Values -/

/-- A value without its number. -/
def Value.bare : Value → Value
  | .moment _ m => .moment 0 m
  | .object _ => .object 0
  | v => v

/-- Two values are the same, where numbers stand for each other. -/
structure Value.Matches (R : Nat → Nat → Prop) (v w : Value) : Prop where
  bare : v.bare = w.bare
  id : Option.Rel R v.id? w.id?

namespace Value

variable {u v w : Value}

instance [DecidableRel R] (v w : Value) : Decidable (v.Matches R w) :=
  decidable_of_iff (v.bare = w.bare ∧ Option.Rel R v.id? w.id?)
    ⟨fun h => ⟨h.1, h.2⟩, fun h => ⟨h.1, h.2⟩⟩

theorem bare_eq_self (h : v.id? = none) : v.bare = v := by
  cases v <;> first | rfl | cases h

theorem Matches.refl (v : Value) : v.Matches Eq v where
  bare := rfl
  id := by cases v.id? with
    | none => exact .none
    | some => exact .some rfl

theorem Matches.comp (h : u.Matches R v) (h' : v.Matches S w) :
    u.Matches (Relation.Comp R S) w :=
  ⟨h.bare.trans h'.bare, rel_trans h.id h'.id fun h h' => ⟨_, h, h'⟩⟩

/-- What goes by no number is the same only as itself. -/
theorem Matches.eq_of_plain (h : v.Matches R w) (hv : v.id? = none) : w = v := by
  have hw : w.id? = none := by
    have := hv ▸ h.id
    cases hw : w.id? with
    | none => rfl
    | some => rw [hw] at this; cases this
  rw [← bare_eq_self hw, ← h.bare, bare_eq_self hv]

theorem Matches.eq_of_plain' (h : v.Matches R w) (hw : w.id? = none) : v = w := by
  have hv : v.id? = none := by
    have := hw ▸ h.id
    cases hv : v.id? with
    | none => rfl
    | some => rw [hv] at this; cases this
  exact (h.eq_of_plain hv).symm

theorem Matches.of_plain (h : v.id? = none) : v.Matches R v :=
  ⟨rfl, h ▸ .none⟩

end Value

/-! ## Objects -/

/-- Two lists hold the same items, in whatever order. -/
def Agree (r : α → β → Prop) (xs : List α) (ys : List β) : Prop :=
  (∀ x ∈ xs, ∃ y ∈ ys, r x y) ∧ ∀ y ∈ ys, ∃ x ∈ xs, r x y

instance [∀ a b, Decidable (r a b)] (xs : List α) (ys : List β) :
    Decidable (Agree r xs ys) :=
  inferInstanceAs (Decidable (_ ∧ _))

theorem Agree.of_refl {r : α → α → Prop} (h : ∀ x, r x x) (xs : List α) : Agree r xs xs :=
  ⟨fun x hx => ⟨x, hx, h x⟩, fun x hx => ⟨x, hx, h x⟩⟩

theorem Agree.trans {xs : List α} {ys : List β} {zs : List γ} (h : Agree r xs ys)
    (h' : Agree s ys zs) (hcomp : ∀ {x y z}, r x y → s y z → t x z) : Agree t xs zs := by
  constructor
  · intro x hx
    obtain ⟨y, hy, hxy⟩ := h.1 x hx
    obtain ⟨z, hz, hyz⟩ := h'.1 y hy
    exact ⟨z, hz, hcomp hxy hyz⟩
  · intro z hz
    obtain ⟨y, hy, hyz⟩ := h'.2 z hz
    obtain ⟨x, hx, hxy⟩ := h.2 y hy
    exact ⟨x, hx, hcomp hxy hyz⟩

/-- Two members have the same key and the same value. -/
def MembersMatch (R : Nat → Nat → Prop) (e f : Value × Value) : Prop :=
  e.1.Matches R f.1 ∧ e.2.Matches R f.2

instance [DecidableRel R] (e f : Value × Value) : Decidable (MembersMatch R e f) :=
  inferInstanceAs (Decidable (_ ∧ _))

theorem MembersMatch.refl (e : Value × Value) : MembersMatch Eq e e := ⟨.refl _, .refl _⟩

theorem MembersMatch.comp {e f g : Value × Value} (h : MembersMatch R e f)
    (h' : MembersMatch S f g) : MembersMatch (Relation.Comp R S) e g :=
  ⟨h.1.comp h'.1, h.2.comp h'.2⟩

theorem Value.mem_sortEntries {e : Value × Value} {es : List (Value × Value)} :
    e ∈ sortEntries es ↔ e ∈ es := by
  unfold sortEntries
  split
  · rfl
  · split
    · exact mem_sortBy
    · rfl

namespace Object

variable {o p q : Object}

/-- Two objects are the same: lists item by item, mappings and sets in whatever order. -/
def Matches (R : Nat → Nat → Prop) : Object → Object → Prop
  | .list vs, .list ws => List.Forall₂ (Value.Matches R) vs ws
  | .mapping es, .mapping fs => Agree (MembersMatch R) es fs
  | .set ks, .set ls => Agree (Value.Matches R) ks ls
  | _, _ => False

instance [DecidableRel R] : ∀ o p : Object, Decidable (o.Matches R p)
  | .list vs, .list ws => inferInstanceAs (Decidable (List.Forall₂ (Value.Matches R) vs ws))
  | .mapping es, .mapping fs => inferInstanceAs (Decidable (Agree (MembersMatch R) es fs))
  | .set ks, .set ls => inferInstanceAs (Decidable (Agree (Value.Matches R) ks ls))
  | .list _, .mapping _ | .list _, .set _ | .mapping _, .list _ | .mapping _, .set _
  | .set _, .list _ | .set _, .mapping _ => isFalse fun h => h

theorem Matches.refl (o : Object) : o.Matches Eq o := by
  cases o with
  | list vs => exact List.forall₂_same.mpr fun v _ => .refl v
  | mapping es => exact .of_refl .refl es
  | set ks => exact .of_refl .refl ks

theorem Matches.comp (h : o.Matches R p) (h' : p.Matches S q) :
    o.Matches (Relation.Comp R S) q := by
  match o, p, q, h, h' with
  | .list _, .list _, .list _, h, h' => exact forall₂_trans h h' .comp
  | .mapping _, .mapping _, .mapping _, h, h' => exact Agree.trans h h' .comp
  | .set _, .set _, .set _, h, h' => exact Agree.trans h h' .comp

theorem mem_parts_mapping {v : Value} {es : List (Value × Value)} :
    v ∈ (mapping es).parts ↔ ∃ e ∈ es, v = e.1 ∨ v = e.2 := by
  simp [parts, members, Value.mem_sortEntries]

theorem mem_parts_set {v : Value} {ks : List Value} :
    v ∈ (set ks).parts ↔ ∃ k ∈ ks, v = k ∨ v = .null := by
  simp [parts, members, Value.mem_sortEntries]

/-- Every part of an object is a part of one that is the same. -/
theorem Matches.exists_mem_parts (h : o.Matches R p) {v : Value} (hv : v ∈ o.parts) :
    ∃ w ∈ p.parts, v.Matches R w := by
  match o, p, h with
  | .list vs, .list ws, h =>
      obtain ⟨i, hi, rfl⟩ := List.mem_iff_getElem.mp hv
      obtain ⟨hlen, hget⟩ := List.forall₂_iff_get.mp h
      exact ⟨ws.get ⟨i, hlen ▸ hi⟩, List.get_mem .., hget i hi (hlen ▸ hi)⟩
  | .mapping es, .mapping fs, h =>
      obtain ⟨e, he, hve⟩ := mem_parts_mapping.mp hv
      obtain ⟨f, hf, hkey, hvalue⟩ := h.1 e he
      rcases hve with rfl | rfl
      · exact ⟨f.1, mem_parts_mapping.mpr ⟨f, hf, .inl rfl⟩, hkey⟩
      · exact ⟨f.2, mem_parts_mapping.mpr ⟨f, hf, .inr rfl⟩, hvalue⟩
  | .set ks, .set ls, h =>
      obtain ⟨k, hk, hvk⟩ := mem_parts_set.mp hv
      obtain ⟨l, hl, hkl⟩ := h.1 k hk
      rcases hvk with rfl | rfl
      · exact ⟨l, mem_parts_set.mpr ⟨l, hl, .inl rfl⟩, hkl⟩
      · exact ⟨.null, mem_parts_set.mpr ⟨l, hl, .inr rfl⟩, .of_plain rfl⟩

end Object

/-! ## Documents -/

/-- Numbers of two documents that stand for each other, and have the same under them. -/
structure Renumbering (R : Nat → Nat → Prop) (objects objects' : Objects) : Prop where
  oneToOne : ∀ {a b a' b'}, R a b → R a' b' → (a = a' ↔ b = b')
  object : ∀ {a b}, R a b →
    Option.Rel (Object.Matches R) (objects.lookup a) (objects'.lookup b)

/-- Two documents say the same. -/
def Document.Same (d e : Document) : Prop :=
  ∃ R, Renumbering R d.objects e.objects ∧ d.root.Matches R e.root

theorem Document.Same.refl (d : Document) : d.Same d := by
  refine ⟨Eq, ⟨fun h h' => by rw [h, h'], ?_⟩, .refl _⟩
  rintro a _ rfl
  cases d.objects.lookup a with
  | none => exact .none
  | some o => exact .some (.refl o)

/-- Two documents have the same under the same numbers. -/
def Document.Alike (d e : Document) : Prop :=
  d.root.Matches Eq e.root ∧ ∀ p ∈ d.objects ++ e.objects,
    Option.Rel (Object.Matches Eq) (d.objects.lookup p.1) (e.objects.lookup p.1)

instance (d e : Document) : Decidable (d.Alike e) := inferInstanceAs (Decidable (_ ∧ _))

theorem Document.Alike.same {d e : Document} (h : d.Alike e) : d.Same e := by
  refine ⟨Eq, ⟨fun hab hab' => by rw [hab, hab'], ?_⟩, h.1⟩
  rintro id _ rfl
  by_cases hid : ∃ p ∈ d.objects ++ e.objects, p.1 = id
  · obtain ⟨p, hp, rfl⟩ := hid
    exact h.2 p hp
  · have hnone : ∀ objects ⊆ d.objects ++ e.objects, objects.lookup id = none := fun _ hsub =>
      List.lookup_eq_none_iff.mpr fun p hp => bne_iff_ne.mpr fun heq => hid ⟨p, hsub hp, heq.symm⟩
    rw [hnone _ (List.subset_append_left ..), hnone _ (List.subset_append_right ..)]
    exact .none

theorem Renumbering.comp {objects objects' objects'' : Objects}
    (h : Renumbering R objects objects') (h' : Renumbering S objects' objects'') :
    Renumbering (Relation.Comp R S) objects objects'' where
  oneToOne := by
    rintro _ _ _ _ ⟨_, hr, hs⟩ ⟨_, hr', hs'⟩
    exact (h.oneToOne hr hr').trans (h'.oneToOne hs hs')
  object := by
    rintro _ _ ⟨_, hr, hs⟩
    exact rel_trans (h.object hr) (h'.object hs) .comp

theorem Document.Same.trans {d e f : Document} (h : d.Same e) (h' : e.Same f) : d.Same f := by
  obtain ⟨R, hR, hroot⟩ := h
  obtain ⟨S, hS, hroot'⟩ := h'
  exact ⟨_, hR.comp hS, hroot.comp hroot'⟩

end TaskLine.Yaml
