import TaskLine.Document
import TaskLine.Formatter.Line

/-!
# Selections in their place

A document is *in place* while its cursor is on one of its lines and its selection within that line.
It stays so when a line is replaced, for the selection is cut to the new line, and when the cursor's
line is replaced along with a selection that fits. A selection that is carried over to a formatted
line does fit (`Selection.within_follow`), for in whatever way it is mapped it is placed within the
new line in the end (`Caret.exists_map_eq_place`). When all lines are replaced at once the selection
is neither cut nor carried over, so it has to fit by itself (`Document.InPlace.allFormatted_iff`).
-/

namespace TaskLine

/-! ## Selections within a line -/

namespace Selection

/-- A selection within a line of some length, with its end not before its start. -/
structure Within (s : Selection) (length : Nat) : Prop where
  nonneg : 0 ≤ s.start
  ordered : s.start ≤ s.stop
  bounded : s.stop ≤ length

instance (s : Selection) (length : Nat) : Decidable (s.Within length) :=
  decidable_of_iff (0 ≤ s.start ∧ s.start ≤ s.stop ∧ s.stop ≤ length)
    ⟨fun h => ⟨h.1, h.2.1, h.2.2⟩, fun h => ⟨h.nonneg, h.ordered, h.bounded⟩⟩

variable {s : Selection} {length : Nat}

theorem clampTo_mem (length : Nat) (pos : Int) :
    0 ≤ clampTo length pos ∧ clampTo length pos ≤ length := by
  rw [clampTo]
  omega

theorem within_between (length : Nat) (a b : Int) :
    (between (clampTo length a) (clampTo length b)).Within length := by
  obtain ⟨ha, ha'⟩ := clampTo_mem length a
  obtain ⟨hb, hb'⟩ := clampTo_mem length b
  rw [between]
  split
  next hle => exact ⟨ha, hle, hb'⟩
  next hlt => exact ⟨hb, Int.le_of_not_le hlt, ha'⟩

theorem Within.cutTo (h : s.Within length) (cut : Nat) : (Document.cutTo cut s).Within cut := by
  obtain ⟨hnonneg, hordered, -⟩ := h
  constructor <;> simp only [Document.cutTo] <;> omega

theorem Within.shift (h : s.Within length) (n : Nat) : (s.shift n).Within (n + length) := by
  obtain ⟨hnonneg, hordered, hbounded⟩ := h
  constructor <;> simp only [Selection.shift] <;> omega

end Selection

namespace Caret

/-! ## Where a selection is placed -/

theorem within_place (length : Nat) (width stop : Int) : (place length width stop).Within length :=
  Selection.within_between ..

theorem place_caret (length : Nat) (stop : Int) :
    place length 0 stop = .caret (clampTo length stop) := by
  rw [place, Int.sub_zero, Selection.between, if_pos (Int.le_refl _), Selection.caret]

/-- Bringing a selection into a line does not make it wider. -/
theorem width_place_le (length : Nat) {width : Int} (hwidth : 0 ≤ width) (stop : Int) :
    (place length width stop).width ≤ width := by
  have hordered : clampTo length (stop - width) ≤ clampTo length stop := by
    simp only [clampTo]
    omega
  rw [place, Selection.between, if_pos hordered, Selection.width]
  simp only [clampTo]
  omega

variable {old new : Text}

/-- In whatever way a selection is mapped, it is placed in the new line as wide as it was, or as a
caret. -/
theorem exists_map_eq_place (hne : old ≠ new) (s : Selection) :
    ∃ width stop, (width = s.width ∨ width = 0) ∧ map old new s = place new.length width stop := by
  rw [map, if_neg hne]
  split
  next mapped hword =>
    obtain ⟨⟨stop, now⟩, -, rfl⟩ := Option.map_eq_some_iff.mp hword
    exact ⟨s.width, _, .inl rfl, rfl⟩
  next =>
    split
    next =>
      refine ⟨0, new.length, .inr rfl, ?_⟩
      rw [place_caret, clampTo, Int.min_self, Int.max_eq_right (Int.natCast_nonneg _)]
    next pos _ =>
      split
      · exact ⟨s.width, pos, .inl rfl, rfl⟩
      · exact ⟨0, pos, .inr rfl, (place_caret ..).symm⟩

/-- Wherever the caret goes when a line changes, it is within the new line. -/
theorem within_map (hne : old ≠ new) (s : Selection) : (map old new s).Within new.length := by
  obtain ⟨width, stop, -, hmap⟩ := exists_map_eq_place hne s
  rw [hmap]
  exact within_place ..

theorem width_map_le (hne : old ≠ new) (s : Selection) : (map old new s).width ≤ s.width := by
  have hwidth : 0 ≤ s.width := Int.le_max_left 0 _
  obtain ⟨width, stop, hkept, hmap⟩ := exists_map_eq_place hne s
  rw [hmap]
  rcases hkept with rfl | rfl
  · exact width_place_le _ hwidth stop
  · exact Int.le_trans (width_place_le _ (Int.le_refl 0) stop) hwidth

/-- Whatever selection it was, reversed or out of range, it is within the new line with its end not
before its start, and not wider than it was, so that a caret stays a caret. In a line that stays the
same it is left as it is. -/
theorem map_valid (old new : Text) (s : Selection) :
    (old = new → map old new s = s) ∧
      (old ≠ new →
        (map old new s).Within new.length ∧
          (map old new s).stop - (map old new s).start ≤ max 0 (s.stop - s.start) ∧
          (s.start = s.stop → (map old new s).start = (map old new s).stop)) := by
  refine ⟨fun heq => if_pos heq, fun hne => ?_⟩
  have hwithin := within_map hne s
  have hwidth := width_map_le hne s
  have hordered := hwithin.ordered
  simp only [Selection.width] at hwidth
  exact ⟨hwithin, by omega, fun hcaret => by omega⟩

end Caret

theorem Line.indent_append_body (line : Text) : indent line ++ body line = line :=
  List.takeWhile_append_dropWhile

/-- What formatting changes of a line is not its indentation. -/
theorem body_ne_formatLine {ov : Overrides} {line : Text} (hnew : formatIndented ov line ≠ line) :
    Line.body line ≠ formatLine ov (Line.body line) := by
  intro hsame
  rw [formatIndented, ← hsame, Line.indent_append_body] at hnew
  exact hnew rfl

/-- A selection that is carried over to a line that formatting changes is within the new line. -/
theorem Selection.within_follow {ov : Overrides} {line : Text}
    (hnew : formatIndented ov line ≠ line) (s : Selection) :
    (s.follow ov line).Within (formatIndented ov line).length := by
  rw [formatIndented, List.length_append]
  exact (Caret.within_map (body_ne_formatLine hnew) _).shift _

/-! ## What writes make of a document -/

section Place

variable (n : Int) (text : Text) (s : Selection) (d : Document)

/-- A line stands in the place of one that is there, and the cursor stays in its line. -/
theorem Document.place_replaceLine :
    (d.replaceLine n text).lines = (if d.has n then d.lines.set n.toNat text else d.lines) ∧
      (d.replaceLine n text).cursor = d.cursor := by
  have hhas : has n { d with requests := .line n text :: d.requests } = d.has n := rfl
  rw [replaceLine, hhas]
  split
  · exact ⟨rfl, rfl⟩
  · exact ⟨rfl, rfl⟩

theorem Document.place_replaceSelecting :
    (d.replaceSelecting n text s).lines =
        (if d.has n then d.lines.set n.toNat text else d.lines) ∧
      (d.replaceSelecting n text s).cursor = d.cursor := by
  have hhas : has n { d with requests := .selecting n text s :: d.requests } = d.has n := rfl
  rw [replaceSelecting, hhas]
  split
  · exact ⟨rfl, rfl⟩
  · exact ⟨rfl, rfl⟩

end Place

/-- A line that is not there is not written. -/
theorem Document.lines_replaceLine (n : Nat) (line : Text) (d : Document) :
    (d.replaceLine n line).lines = d.lines.set n line := by
  rw [(d.place_replaceLine n line).1]
  by_cases hn : n < d.lines.length
  · rw [if_pos (by simp [has, hn])]
    rfl
  · rw [if_neg (by simp [has, hn]), List.set_eq_of_length_le (Nat.le_of_not_lt hn)]

theorem Document.lines_replaceAll (new : List Text) (d : Document) :
    (d.replaceAll new).lines = if new.isEmpty then [[]] else new := rfl

/-! ## Documents in place -/

namespace Document

/-- The cursor is on a line of the document; so there is one. -/
def OnLine (d : Document) : Prop := d.cursor < d.lines.length

/-- The cursor is on a line, and the selection, if there is one, within that line. -/
structure InPlace (d : Document) : Prop where
  onLine : d.OnLine
  selection : ∀ s ∈ d.selection, ∀ line ∈ d.lines[d.cursor]?, s.Within line.length

instance (d : Document) : Decidable d.InPlace :=
  decidable_of_iff (d.cursor < d.lines.length ∧
      ∀ s ∈ d.selection, ∀ line ∈ d.lines[d.cursor]?, s.Within line.length)
    ⟨fun h => ⟨h.1, h.2⟩, fun h => ⟨h.onLine, h.selection⟩⟩

/-- Some lines are replaced, one after the other. -/
def replaceLines (writes : List (Int × Text)) (d : Document) : Document :=
  writes.foldl (fun d write => d.replaceLine write.1 write.2) d

variable {d : Document} {line : Text} {s : Selection}

theorem OnLine.ne_nil (h : d.OnLine) : d.lines ≠ [] :=
  List.ne_nil_of_length_pos (Nat.zero_lt_of_lt h)

theorem OnLine.replaceLine (h : d.OnLine) (n : Int) (line : Text) :
    (d.replaceLine n line).OnLine := by
  obtain ⟨hlines, hcursor⟩ := d.place_replaceLine n line
  rw [OnLine, hlines, hcursor]
  split
  · exact Nat.lt_of_lt_of_eq h List.length_set.symm
  · exact h

theorem OnLine.replaceLines (h : d.OnLine) (writes : List (Int × Text)) :
    (d.replaceLines writes).OnLine := by
  induction writes generalizing d with
  | nil => exact h
  | cons write writes ih => exact ih (h.replaceLine write.1 write.2)

theorem OnLine.replaceSelecting (h : d.OnLine) (n : Int) (line : Text) (s : Selection) :
    (d.replaceSelecting n line s).OnLine := by
  obtain ⟨hlines, hcursor⟩ := d.place_replaceSelecting n line s
  rw [OnLine, hlines, hcursor]
  split
  · exact Nat.lt_of_lt_of_eq h List.length_set.symm
  · exact h

theorem OnLine.getElem?_set (h : d.OnLine) (line : Text) :
    (d.lines.set (d.cursor : Int).toNat line)[d.cursor]? = some line := by
  rw [Int.toNat_natCast, List.getElem?_set_self h]

/-- Replacing a line leaves a document in place. -/
theorem InPlace.replaceLine (h : d.InPlace) (n : Int) (line : Text) :
    (d.replaceLine n line).InPlace := by
  refine ⟨h.onLine.replaceLine n line, ?_⟩
  rw [(d.place_replaceLine n line).2, Document.replaceLine]
  split
  next hhas =>
    intro s hs line' hline'
    by_cases hat : n = d.cursor
    · obtain ⟨s', hs', rfl⟩ := Option.map_eq_some_iff.mp ((if_pos hat).symm.trans hs)
      obtain rfl := Option.some.inj ((h.onLine.getElem?_set line).symm.trans (hat ▸ hline'))
      have hbefore := h.selection s' hs' _ (List.getElem?_eq_getElem h.onLine)
      exact hbefore.cutTo _
    · have hn : 0 ≤ n := of_decide_eq_true (Bool.and_eq_true_iff.mp hhas).1
      have hother : n.toNat ≠ d.cursor := by omega
      rw [List.getElem?_set_ne hother] at hline'
      exact h.selection s ((if_neg hat).symm.trans hs) line' hline'
  next => exact h.selection

theorem InPlace.replaceLines (h : d.InPlace) (writes : List (Int × Text)) :
    (d.replaceLines writes).InPlace := by
  induction writes generalizing d with
  | nil => exact h
  | cons write writes ih => exact ih (h.replaceLine write.1 write.2)

/-- Replacing the cursor's line with a selection in the new one leaves a document in place. -/
theorem InPlace.replaceSelecting (h : d.InPlace) (hs : s.Within line.length) :
    (d.replaceSelecting d.cursor line s).InPlace := by
  have hcursor : d.cursor < d.lines.length := h.onLine
  refine ⟨h.onLine.replaceSelecting _ line s, ?_⟩
  rw [Document.replaceSelecting, if_pos (by simp [has, hcursor])]
  intro s' hs' line' hline'
  obtain rfl := Option.some.inj ((h.onLine.getElem?_set line).symm.trans hline')
  obtain rfl := Option.some.inj ((if_pos rfl).symm.trans hs')
  exact hs

/-- The selection ends within what formatting makes of the cursor's line. -/
def SelectionFits (ov : Overrides) (d : Document) : Prop :=
  ∀ s ∈ d.selection, ∀ line ∈ d.lines[d.cursor]?, s.stop ≤ (formatIndented ov line).length

instance (ov : Overrides) (d : Document) : Decidable (d.SelectionFits ov) :=
  inferInstanceAs (Decidable (∀ s ∈ d.selection, ∀ line ∈ d.lines[d.cursor]?,
    s.stop ≤ (formatIndented ov line).length))

/-- The document with all its lines formatted and replaced at once. -/
def allFormatted (ov : Overrides) (d : Document) : Document :=
  d.replaceAll (d.lines.map (formatIndented ov))

theorem OnLine.lines_allFormatted (h : d.OnLine) (ov : Overrides) :
    (d.allFormatted ov).lines = d.lines.map (formatIndented ov) ∧
      (d.allFormatted ov).cursor = d.cursor := by
  have hlines : (d.allFormatted ov).lines = d.lines.map (formatIndented ov) := by
    rw [allFormatted, lines_replaceAll, if_neg]
    simp [h.ne_nil]
  refine ⟨hlines, ?_⟩
  show min d.cursor ((d.allFormatted ov).lines.length - 1) = d.cursor
  rw [hlines, List.length_map]
  exact Nat.min_eq_left (Nat.le_sub_one_of_lt h)

theorem OnLine.allFormatted (h : d.OnLine) (ov : Overrides) : (d.allFormatted ov).OnLine := by
  obtain ⟨hlines, hcursor⟩ := h.lines_allFormatted ov
  rw [OnLine, hlines, hcursor, List.length_map]
  exact h

/-- The selection is not cut when all lines are replaced. -/
theorem InPlace.allFormatted_iff (h : d.InPlace) (ov : Overrides) :
    (d.allFormatted ov).InPlace ↔ d.SelectionFits ov := by
  obtain ⟨hlines, hcursor⟩ := h.onLine.lines_allFormatted ov
  constructor
  · intro hplace s hs line hline
    have hformatted : (d.allFormatted ov).lines[(d.allFormatted ov).cursor]? =
        some (formatIndented ov line) := by
      rw [hlines, hcursor, List.getElem?_map, hline]
      rfl
    exact (hplace.selection s hs _ hformatted).bounded
  · intro hfits
    refine ⟨h.onLine.allFormatted ov, fun s hs line' hline' => ?_⟩
    rw [hlines, hcursor, List.getElem?_map] at hline'
    obtain ⟨line, hline, rfl⟩ := Option.map_eq_some_iff.mp hline'
    have hbefore := h.selection s hs line hline
    exact ⟨hbefore.nonneg, hbefore.ordered, hfits s hs line hline⟩

end Document

end TaskLine
