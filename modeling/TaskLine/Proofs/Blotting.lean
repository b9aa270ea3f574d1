import Mathlib.Data.List.Infix
import TaskLine.Proofs.Tidying

/-!
# What a written line can hold

Most of what is done to a line writes spaces over stretches of it: over white space that collapses,
over wrappers and tokens that are taken out, over arrows (`Blotted`). Nothing comes up that way that
was not there before, unless it has a space in it (`Blotted.infix_before`). So a text in one piece
(`Solid`) that does not stand in a line stands in none of the words of the task
(`Frame.not_infix_word`), nor in a row of them.
-/

namespace TaskLine

open Text (row collapse)

variable {s t u x : Text}

/-- The second text is the first with a space written over some of its stretches. -/
inductive Blotted : Text → Text → Prop
  | nil : Blotted [] []
  | keep {s t : Text} (c : Char) : Blotted s t → Blotted (c :: s) (c :: t)
  | blot {s t : Text} (g : Text) : Blotted s t → Blotted (g ++ s) (' ' :: t)

namespace Blotted

theorem refl (s : Text) : Blotted s s := by
  induction s with
  | nil => exact .nil
  | cons c s ih => exact .keep c ih

theorem append {s' t' : Text} (h : Blotted s t) (h' : Blotted s' t') :
    Blotted (s ++ s') (t ++ t') := by
  induction h with
  | nil => exact h'
  | keep c _ ih => exact .keep c ih
  | blot g _ ih =>
      rw [List.append_assoc]
      exact .blot g ih

theorem prefix_before (h : Blotted s t) (hx : ' ' ∉ x) (hpre : x <+: t) : x <+: s := by
  induction h generalizing x with
  | nil => exact hpre
  | keep c _ ih =>
      rcases List.prefix_cons_iff.mp hpre with rfl | ⟨y, rfl, hy⟩
      · exact List.nil_prefix
      · exact List.cons_prefix_cons.mpr ⟨rfl, ih (fun h => hx (List.mem_cons_of_mem _ h)) hy⟩
  | blot g _ _ =>
      rcases List.prefix_cons_iff.mp hpre with rfl | ⟨x, rfl, -⟩
      · exact List.nil_prefix
      · exact absurd List.mem_cons_self hx

/-- What has no space in it stood there before. -/
theorem infix_before (h : Blotted s t) (hx : ' ' ∉ x) (hmid : x <:+: t) : x <:+: s := by
  induction h with
  | nil => exact hmid
  | @keep s t c hst ih =>
      rcases List.infix_cons_iff.mp hmid with hpre | hmid
      · exact ((hst.keep c).prefix_before hx hpre).isInfix
      · exact (ih hmid).trans (List.suffix_cons c s).isInfix
  | @blot s t g _ ih =>
      rcases List.infix_cons_iff.mp hmid with hpre | hmid
      · rcases List.prefix_cons_iff.mp hpre with rfl | ⟨x, rfl, -⟩
        · exact List.nil_infix
        · exact absurd List.mem_cons_self hx
      · exact (ih hmid).trans (List.suffix_append g s).isInfix

end Blotted

/-! ## What is blotted -/

theorem blotted_collapse (s : Text) : Blotted s (collapse s) := by
  induction s with
  | nil => exact .nil
  | cons c s ih =>
      cases hout : collapse s with
      | nil =>
          rw [Text.collapse_eq_nil.mp hout]
          exact .refl [c]
      | cons d out =>
          rw [hout] at ih
          rw [Text.collapse_cons_of_eq_cons hout]
          split
          · -- the character joins the white space that the rest begins with
            cases ih with
            | keep _ h => exact .blot [c, d] h
            | blot g h => exact .blot (c :: g) h
          · exact .keep c ih

theorem blotted_replace (a : Char) (s : Text) : Blotted s (Text.replace a ' ' s) := by
  induction s with
  | nil => exact .nil
  | cons c s ih =>
      rw [Text.replace, List.map_cons]
      split
      · exact .blot [c] ih
      · exact .keep c ih

theorem blotted_cleared (ks : List Chunk) : Blotted (Chunk.joined ks) (Chunk.cleared ks) := by
  induction ks with
  | nil => exact .nil
  | cons k ks ih =>
      rw [Chunk.cleared_cons, Chunk.joined, List.flatMap_cons]
      split
      · exact .blot k.text ih
      · exact (Blotted.refl k.text).append ih

theorem blotted_trimRight (s t : Text) : Blotted (s ++ t) (Text.trimRight s ++ [' ']) := by
  obtain ⟨g, -, hs⟩ := Text.exists_trimRight_blank s
  have hblot : Blotted (g ++ t ++ []) [' '] := .blot (g ++ t) .nil
  rw [List.append_nil] at hblot
  have h := (Blotted.refl (Text.trimRight s)).append hblot
  rwa [← List.append_assoc, ← hs] at h

theorem blotted_removeWrappers (s : Text) : Blotted s (Markup.removeWrappers s) := by
  have h := blotted_cleared (Markup.chunks s)
  rwa [Markup.joined_chunks] at h

/-! ## Solid texts -/

/-- A text without spaces and arrows. -/
structure Solid (x : Text) : Prop where
  ne_nil : x ≠ []
  space : ' ' ∉ x
  arrow : DateToken.arrow ∉ x

instance (x : Text) : Decidable (Solid x) :=
  decidable_of_iff (x ≠ [] ∧ ' ' ∉ x ∧ DateToken.arrow ∉ x)
    ⟨fun ⟨a, b, c⟩ => ⟨a, b, c⟩, fun ⟨a, b, c⟩ => ⟨a, b, c⟩⟩

theorem prefix_of_prefix_append_cons {c : Char} (hc : c ∉ x) (h : x <+: s ++ c :: t) :
    x <+: s := by
  induction s generalizing x with
  | nil =>
      rcases List.prefix_cons_iff.mp h with rfl | ⟨x, rfl, -⟩
      · exact List.nil_prefix
      · exact absurd List.mem_cons_self hc
  | cons d s ih =>
      rcases List.prefix_cons_iff.mp h with rfl | ⟨y, rfl, hy⟩
      · exact List.nil_prefix
      · exact List.cons_prefix_cons.mpr ⟨rfl, ih (fun hx => hc (List.mem_cons_of_mem _ hx)) hy⟩

/-- What has no such character in it stands in front of it or behind. -/
theorem infix_append_cons {c : Char} (hc : c ∉ x) (h : x <:+: s ++ c :: t) :
    x <:+: s ∨ x <:+: t := by
  induction s with
  | nil =>
      rcases List.infix_cons_iff.mp h with hpre | hmid
      · exact .inl (prefix_of_prefix_append_cons (s := []) hc hpre).isInfix
      · exact .inr hmid
  | cons d s ih =>
      rcases List.infix_cons_iff.mp h with hpre | hmid
      · exact .inl (prefix_of_prefix_append_cons (s := d :: s) hc hpre).isInfix
      · exact (ih hmid).imp_left fun h => h.trans (List.suffix_cons d s).isInfix

theorem not_infix_append_row {ws : List Text} (hx : ' ' ∉ x) (hs : ¬x <:+: s)
    (hws : ∀ w ∈ ws, ¬x <:+: w) : ¬x <:+: s ++ row ws := by
  induction ws generalizing s with
  | nil => rwa [Text.row_nil, List.append_nil]
  | cons w ws ih =>
      obtain ⟨hw, hws⟩ := List.forall_mem_cons.mp hws
      rw [Text.row_cons]
      intro h
      rcases infix_append_cons hx h with h | h
      · exact hs h
      · exact ih hw hws h

/-! ## The words of a task -/

theorem not_infix_plainText (hx : Solid x) (hs : ¬x <:+: s) : ¬x <:+: Task.plainText s := by
  intro h
  have hreplace := (blotted_collapse _).infix_before hx.space h
  have hremove := (blotted_replace _ _).infix_before hx.space hreplace
  have hforall : ∀ (shapes : List DateToken.Shape) (s : Text), ¬x <:+: s →
      ¬x <:+: shapes.foldl (fun t shape => Chunk.cleared (shape.chunks t)) s := by
    intro shapes
    induction shapes with
    | nil => exact fun s hs => hs
    | cons shape shapes ih =>
        intro s hs
        refine ih _ fun h => hs ?_
        have hblot := blotted_cleared (shape.chunks s)
        rw [shape.joined_chunks] at hblot
        exact hblot.infix_before hx.space h
  exact hforall _ s hs hremove

theorem Chunk.infix_of_mem_found {ks : List Chunk} (h : t ∈ found ks) : t <:+: joined ks := by
  obtain ⟨k, hk, rfl⟩ := List.mem_map.mp h
  obtain ⟨front, back, rfl⟩ := List.append_of_mem (List.mem_of_mem_filter hk)
  exact ⟨joined front, joined back, by simp [joined]⟩

theorem DateToken.infix_of_mem_ordered (h : t ∈ ordered s) : t <:+: s := by
  obtain ⟨⟨rank, t⟩, ht, rfl⟩ := List.mem_map.mp h
  rw [mem_sortBy] at ht
  obtain ⟨shape, -, ht⟩ := List.mem_flatMap.mp ht
  obtain ⟨t', ht', heq⟩ := List.mem_map.mp ht
  obtain ⟨-, rfl⟩ := Prod.mk.inj heq
  have hmid := Chunk.infix_of_mem_found ht'
  rwa [shape.joined_chunks] at hmid

/-- Taking a block reference off writes a space over it. -/
theorem Line.exists_splitBlockId (s : Text) :
    ∃ content blockId, splitBlockId s = (content, blockId) ∧ Blotted s content ∧
      ∀ b, blockId = some b → b <:+: s := by
  by_cases href : EndsInReference s
  · obtain ⟨y, name, g, hne, hname, hg, rfl⟩ := href
    refine ⟨_, _, splitBlockId_append hne hname hg y, blotted_trimRight y _, fun b hb => ?_⟩
    obtain rfl := Option.some.inj hb
    exact ⟨y, g, by simp⟩
  · exact ⟨s, none, splitBlockId_of_not href, .refl s, nofun⟩

/-- What does not stand in a line stands in no word of its task. -/
theorem Frame.not_infix_word {line w : Text} {frame : Frame} (h : Frame.read? line = some frame)
    (hx : Solid x) (hline : ¬x <:+: line)
    (hw : w ∈ frame.task.slots.wrappers ∨ w = [DateToken.arrow] ∨ w = frame.task.text ∨
      w ∈ frame.task.dates ∨ frame.task.blockId = some w) : ¬x <:+: w := by
  obtain ⟨hsplit, hblock⟩ := Frame.read?_eq_some_iff.mp h
  obtain ⟨hrest, -, -⟩ := Line.splitHead?_eq_some_iff.mp hsplit
  have hrest : ¬x <:+: frame.rest := fun h =>
    hline (h.trans ⟨frame.head, [], by rw [hrest, List.append_nil]⟩)
  obtain ⟨content, blockId, heq, hblot, hid⟩ := Line.exists_splitBlockId frame.rest
  obtain ⟨rfl, rfl⟩ := Prod.mk.inj (hblock.symm.trans heq)
  have hcontent : ¬x <:+: frame.content := fun h => hrest (hblot.infix_before hx.space h)
  have hbare : ¬x <:+: Markup.removeWrappers frame.content := fun h =>
    hcontent ((blotted_removeWrappers _).infix_before hx.space h)
  rcases hw with hw | hw | hw | hw | hw
  · obtain ⟨tpl, htpl, rfl⟩ := List.mem_map.mp hw
    obtain ⟨w, hmem, rfl⟩ := Slots.exists_wrapper htpl
    exact fun h => hcontent (h.trans (Markup.mem_wrappers hmem).2)
  · rw [hw]
    intro h
    obtain ⟨c, cs, rfl⟩ := List.exists_cons_of_ne_nil hx.ne_nil
    have hc := h.subset List.mem_cons_self
    rw [List.mem_singleton] at hc
    exact hx.arrow (hc ▸ List.mem_cons_self)
  · rw [hw, Frame.text_task]
    exact not_infix_plainText hx hbare
  · rw [Frame.dates_task] at hw
    exact fun h => hbare (h.trans (DateToken.infix_of_mem_ordered hw))
  · exact fun h => hrest (h.trans (hid w hw))

end TaskLine
