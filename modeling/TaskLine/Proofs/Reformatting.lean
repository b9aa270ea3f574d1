import TaskLine.Proofs.Blotting
import TaskLine.Proofs.Placement
import TaskLine.Proofs.Rereading

/-!
# Formatting the lines of a text

Formatting puts no line break into a line (`Text.Unbroken.formatIndented`) and leaves no line empty
that was not (`formatIndented_eq_nil_iff`). These are the two things that reading a text again asks
of the lines that take the place of its own, so the formatted lines of a text are read again as they
were written, with the same line break and the same end (`Markdown.ofText_text_formatted`).
-/

namespace TaskLine

open Text (Unbroken row collapse)

variable {line s x : Text} {frame : Frame} {ov : Overrides}

theorem Text.unbroken_iff : Unbroken x ↔ ¬['\n'] <:+: x ∧ ¬['\r'] <:+: x := by
  rw [List.singleton_infix_iff, List.singleton_infix_iff]
  exact ⟨fun h => ⟨fun hmem => (h _ hmem).1 rfl, fun hmem => (h _ hmem).2 rfl⟩,
    fun h c hc => ⟨fun heq => h.1 (heq ▸ hc), fun heq => h.2 (heq ▸ hc)⟩⟩

/-! ## Lines -/

theorem blotted_guardTag (s : Text) : Blotted s (Line.guardTag s) := by
  rw [Line.guardTag]
  split
  · have hblot := blotted_trimRight s []
    rwa [List.append_nil] at hblot
  · exact .refl s

/-- The words of a task are the same in the order in which they are written. -/
theorem Task.mem_words_sorted {t : Task} {w : Text}
    (hw : w ∈ { t with slots := t.slots.sorted }.words) :
    w ∈ t.slots.wrappers ∨ w = [DateToken.arrow] ∨ w = t.text ∨ w ∈ t.dates ∨
      t.blockId = some w := by
  have hothers : w ∈ t.slots.sorted.wrappers → w ∈ t.slots.wrappers := by
    simp only [Slots.wrappers, Slots.templates, Slots.sorted, List.map_append, List.mem_append,
      List.mem_map, mem_sortBy, imp_self]
  rcases mem_words hw with hw | hw | hw | hw
  · exact .inl (hothers hw)
  · exact .inr (.inl hw)
  · exact .inr (.inr (.inl hw.1))
  · exact .inr (.inr (.inr hw))

/-- What does not stand in a line does not stand in it when it is formatted. -/
theorem Frame.not_infix_formatLine (h : Frame.read? line = some frame) (hx : Solid x)
    (hline : ¬x <:+: line) : ¬x <:+: formatLine {} line := by
  obtain ⟨hrest, -, -⟩ := Line.splitHead?_eq_some_iff.mp (Frame.read?_eq_some_iff.mp h).1
  have hhead : ¬x <:+: frame.head := fun hmid => hline (hmid.trans ⟨[], frame.rest, hrest.symm⟩)
  intro hmid
  rw [formatLine_eq h] at hmid
  have hcollapsed := (blotted_guardTag _).infix_before hx.space hmid
  refine not_infix_append_row hx.space hhead (fun w hw => ?_)
    ((blotted_collapse _).infix_before hx.space hcollapsed)
  exact Frame.not_infix_word h hx hline (Task.mem_words_sorted hw)

/-- Formatting puts no character into a line that does not occur in it, unless it is one of those
that formatting writes by itself. -/
theorem notMem_formatIndented {c : Char} (hc : Solid [c]) (hline : c ∉ line) :
    c ∉ formatIndented {} line := by
  rw [← Line.indent_append_body line, List.mem_append, not_or] at hline
  obtain ⟨hindent, hbody⟩ := hline
  rw [formatIndented, List.mem_append, not_or]
  refine ⟨hindent, ?_⟩
  cases hread : Frame.read? (Line.body line) with
  | none =>
      rw [formatLine_of_none (by rw [Task.read?, hread]; rfl)]
      exact hbody
  | some frame =>
      rw [← List.singleton_infix_iff] at hbody ⊢
      exact frame.not_infix_formatLine hread hc hbody

/-- Formatting puts no line break into a line. -/
theorem Text.Unbroken.formatIndented (hline : Unbroken line) :
    Unbroken (formatIndented {} line) := by
  obtain ⟨hnl, hcr⟩ := Text.unbroken_iff.mp hline
  rw [List.singleton_infix_iff] at hnl hcr
  rw [Text.unbroken_iff, List.singleton_infix_iff, List.singleton_infix_iff]
  exact ⟨notMem_formatIndented (by decide) hnl, notMem_formatIndented (by decide) hcr⟩

theorem Line.guardTag_ne_nil (h : s ≠ []) : guardTag s ≠ [] := by
  rw [guardTag]
  split
  · simp
  · exact h

/-- A line is empty when it is formatted if it was empty before. -/
theorem formatIndented_eq_nil_iff : formatIndented ov line = [] ↔ line = [] := by
  constructor
  · intro hnil
    obtain ⟨hindent, hbody⟩ := List.append_eq_nil_iff.mp hnil
    rw [← Line.indent_append_body line, hindent, List.nil_append]
    cases htask : Task.read? (Line.body line) with
    | none => rwa [formatLine_of_none htask] at hbody
    | some task =>
        -- at least the head of a task line is written
        obtain ⟨frame, hread, rfl⟩ := Frame.exists_of_task htask
        obtain ⟨-, hleads, -⟩ :=
          Line.splitHead?_eq_some_iff.mp (Frame.read?_eq_some_iff.mp hread).1
        rw [formatLine_of_some htask, Pieces.write_eq] at hbody
        refine absurd hbody (Line.guardTag_ne_nil fun hcollapsed => ?_)
        have hhead := (List.append_eq_nil_iff.mp (Text.collapse_eq_nil.mp hcollapsed)).1
        obtain ⟨l, b, g, x, t, -, -, -, -, -, heq⟩ := hleads
        rw [show frame.head = [] from hhead] at heq
        simp at heq
  · rintro rfl
    rfl

/-! ## Texts -/

namespace Markdown

/-- Lines that take the place of the lines of a text are read again as they were written, if none
is broken and none emptied. -/
theorem ofText_text_map {f : Text → Text} (hbreak : ∀ line, Unbroken line → Unbroken (f line))
    (hempty : ∀ line, f line = [] → line = []) (s : Text) :
    ofText { ofText s with lines := (ofText s).lines.map f }.text =
      { ofText s with lines := (ofText s).lines.map f } := by
  have hread := sound_ofText s
  have hsound : Sound { ofText s with lines := (ofText s).lines.map f } := by
    refine ⟨hread.newline, List.forall_mem_map.mpr fun line hline => ?_, fun htrailing hlast => ?_⟩
    · exact hbreak line (hread.unbroken line hline)
    · rw [List.getLast?_map] at hlast
      obtain ⟨line, hlast, hnil⟩ := Option.map_eq_some_iff.mp hlast
      rw [hempty line hnil] at hlast
      exact hread.last htrailing hlast
  refine hsound.ofText_text (fun hpairs => ?_) fun hlines => ?_
  · obtain ⟨hne, hlength⟩ := hasBreak_ofText hpairs
    exact ⟨mt List.map_eq_nil_iff.mp hne, by rwa [List.length_map]⟩
  · rw [(lines_ofText_eq_nil_iff s).mp (List.map_eq_nil_iff.mp hlines)]
    rfl

/-- A document with each of its lines formatted by itself. -/
def formatted (m : Markdown) : Markdown := { m with lines := m.lines.map (formatIndented {}) }

/-- The formatted lines of a text are read again as they were written. -/
theorem ofText_text_formatted (s : Text) :
    ofText (ofText s).formatted.text = (ofText s).formatted :=
  ofText_text_map (fun _ => Unbroken.formatIndented) (fun _ => formatIndented_eq_nil_iff.mp) s

end Markdown

end TaskLine
