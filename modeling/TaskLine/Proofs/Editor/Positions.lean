import TaskLine.Editor.TextBuffer

/-!
# Rows and columns

The text of a buffer is the join of its lines. A place in it is given by a row and a column that
does not go beyond the line there: the position is that of the lines above, each with its break,
and of the column (`At`). No position is that of two places (`At.unique`), so the row and the column
that a library finds for the position of a place are those of the place
(`TextBuffer.place_indexOf`).
-/

namespace TaskLine

/-! ## The lines of a text -/

namespace Text

theorem splitOn_eq (sep : Char) (s : Text) : splitOn sep s = List.splitOn sep s := by
  induction s with
  | nil => rfl
  | cons c s ih =>
      obtain ⟨part, parts, hparts⟩ := List.exists_cons_of_ne_nil (List.splitOn_ne_nil sep s)
      rw [splitOn, List.splitOn_cons_eq_if_modifyHead, ih, hparts]
      simp only [beq_iff_eq, List.modifyHead_cons]

theorem join_splitOn (s : Text) : join ['\n'] (splitOn '\n' s) = s := by
  rw [splitOn_eq]
  exact List.intercalate_splitOn '\n'

theorem splitOn_join {lines : List Text} (hne : lines ≠ []) (hlines : ∀ line ∈ lines, '\n' ∉ line) :
    splitOn '\n' (join ['\n'] lines) = lines := by
  rw [splitOn_eq]
  exact List.splitOn_intercalate '\n' hlines hne

theorem splitOn_ne_nil (s : Text) : splitOn '\n' s ≠ [] := by
  rw [splitOn_eq]
  exact List.splitOn_ne_nil '\n' s

theorem notMem_of_mem_splitOn (s : Text) : ∀ line ∈ splitOn '\n' s, '\n' ∉ line := by
  induction s with
  | nil => simp [splitOn]
  | cons c s ih =>
      obtain ⟨first, rest, hparts⟩ := List.exists_cons_of_ne_nil (splitOn_ne_nil s)
      rw [hparts] at ih
      obtain ⟨hfirst, hrest⟩ := List.forall_mem_cons.mp ih
      rw [splitOn, hparts]
      split
      · exact List.forall_mem_cons.mpr ⟨List.not_mem_nil, ih⟩
      next hc =>
        refine List.forall_mem_cons.mpr ⟨?_, hrest⟩
        rw [List.mem_cons, not_or]
        exact ⟨Ne.symm hc, hfirst⟩

end Text

/-! ## Places -/

namespace TextBuffer

open Text (join)

variable {lines : List Text} {line line' : Text} {row row' col col' pos : Nat}

theorem startOf_append (above below : List Text) :
    startOf (above ++ below) = startOf above + startOf below := by
  rw [startOf, List.flatMap_append, List.length_append, startOf, startOf]

theorem startOf_cons (first : Text) (above : List Text) :
    startOf (first :: above) = first.length + 1 + startOf above := by
  rw [startOf, List.flatMap_cons, List.length_append, List.length_append, List.length_singleton,
    startOf]

/-- A position is in front of every line below its own. -/
theorem At.lt_startOf (h : At lines row col pos line) (hrow : row < row') :
    pos < startOf (lines.take row') := by
  obtain ⟨hlt, hget⟩ := List.getElem?_eq_some_iff.mp h.here
  have hpos := h.pos_eq
  have hcol := h.within
  obtain ⟨n, rfl⟩ := Nat.exists_eq_add_of_lt hrow
  have hline : startOf (lines.take (row + 1)) = startOf (lines.take row) + (line.length + 1) := by
    rw [List.take_add_one, h.here, startOf_append, Option.toList_some, startOf_cons]
    rfl
  have hsplit : lines.take (row + n + 1) = lines.take (row + 1) ++ (lines.drop (row + 1)).take n :=
    (congrArg lines.take (Nat.add_right_comm row n 1)).trans List.take_add
  rw [hsplit, startOf_append, hline]
  omega

/-- A position is that of one place only. -/
theorem At.unique (h : At lines row col pos line) (h' : At lines row' col' pos line') :
    row = row' ∧ col = col' ∧ line = line' := by
  have hpos := h.pos_eq
  have hpos' := h'.pos_eq
  obtain hlt | rfl | hlt := Nat.lt_trichotomy row row'
  · have := h.lt_startOf hlt
    omega
  · exact ⟨rfl, by omega, Option.some.inj (h.here.symm.trans h'.here)⟩
  · have := h'.lt_startOf hlt
    omega

namespace At

variable (h : At lines row col pos line)

include h

/-- What stands before a position: the lines above, and the line there up to the column. -/
theorem take_join :
    (join ['\n'] lines).take pos = (lines.take row).flatMap (· ++ ['\n']) ++ line.take col := by
  obtain ⟨hrow, hget⟩ := List.getElem?_eq_some_iff.mp h.here
  have hsplit : lines = lines.take row ++ line :: lines.drop (row + 1) := by
    rw [← hget, ← List.drop_eq_getElem_cons hrow, List.take_append_drop]
  have hline : ∃ behind, join ['\n'] (line :: lines.drop (row + 1)) = line ++ behind := by
    cases lines.drop (row + 1) with
    | nil => exact ⟨[], by rw [Text.join_singleton, List.append_nil]⟩
    | cons next rest => exact ⟨_, Text.join_cons_cons ..⟩
  obtain ⟨behind, hbehind⟩ := hline
  rw [hsplit, Text.join_append_cons, hbehind, h.pos_eq, startOf, List.take_length_add_append,
    List.take_append_of_le_length h.within, ← hsplit]

/-- As many line breaks stand before a position as there are lines above. -/
theorem count_take_join (hlines : ∀ line ∈ lines, '\n' ∉ line) :
    ((join ['\n'] lines).take pos).count '\n' = row := by
  have hcount : ∀ above : List Text, (∀ line ∈ above, '\n' ∉ line) →
      (above.flatMap (· ++ ['\n'])).count '\n' = above.length := by
    intro above habove
    induction above with
    | nil => rfl
    | cons first above ih =>
        obtain ⟨hfirst, habove⟩ := List.forall_mem_cons.mp habove
        rw [List.flatMap_cons, List.count_append, List.count_append, ih habove,
          List.count_eq_zero_of_not_mem hfirst, List.length_cons]
        simp [Nat.add_comm]
  have hline := hlines line (List.mem_of_getElem? h.here)
  have hrow := (List.getElem?_eq_some_iff.mp h.here).1
  rw [h.take_join, List.count_append,
    hcount _ fun line hline => hlines line (List.mem_of_mem_take hline),
    List.count_eq_zero_of_not_mem fun hmem => hline (List.mem_of_mem_take hmem),
    List.length_take, Nat.min_eq_left (Nat.le_of_lt hrow), Nat.add_zero]

end At

/-! ## What a library finds -/

section

variable {β : Type} [TextBuffer β] [LawfulTextBuffer β] {b : β} {s : Text}

theorem linesOf_join (hne : lines ≠ []) (hlines : ∀ line ∈ lines, '\n' ∉ line) :
    linesOf β (join ['\n'] lines) = lines :=
  (LawfulTextBuffer.linesOf_eq _).trans (Text.splitOn_join hne hlines)

theorem lines_ne_nil (b : β) : TextBuffer.lines b ≠ [] := by
  rw [TextBuffer.lines, LawfulTextBuffer.linesOf_eq]
  exact Text.splitOn_ne_nil _

theorem notMem_of_mem_lines (b : β) : ∀ line ∈ TextBuffer.lines b, '\n' ∉ line := by
  rw [TextBuffer.lines, LawfulTextBuffer.linesOf_eq]
  exact Text.notMem_of_mem_splitOn _

/-- The cursor of a buffer is at its row and its column. -/
theorem at_cursor (hpos : TextBuffer.pos b ≤ (text b).length) :
    At (TextBuffer.lines b) (TextBuffer.row b) (TextBuffer.col b) (TextBuffer.pos b)
      (TextBuffer.line b) :=
  LawfulTextBuffer.at_position _ _ hpos

theorem row_lt (hpos : TextBuffer.pos b ≤ (text b).length) :
    TextBuffer.row b < (TextBuffer.lines b).length :=
  (List.getElem?_eq_some_iff.mp (at_cursor hpos).here).1

theorem row_eq_count (hpos : TextBuffer.pos b ≤ (text b).length) :
    TextBuffer.row b = ((text b).take (TextBuffer.pos b)).count '\n' := by
  have hcount := (at_cursor hpos).count_take_join (notMem_of_mem_lines b)
  rw [TextBuffer.lines, LawfulTextBuffer.linesOf_eq, Text.join_splitOn] at hcount
  exact hcount.symm

/-- The row and the column of a position that was found for a row and a column are these. -/
theorem place_indexOf {c : Int} (hrow : (linesOf β s)[row]? = some line) :
    rowOf β s (indexOf β s row c) = row ∧
      colOf β s (indexOf β s row c) = (clampTo line.length c).toNat ∧
      lineOf β s (indexOf β s row c) = line :=
  (LawfulTextBuffer.at_position _ _ (LawfulTextBuffer.indexOf_le s row c)).unique
    (LawfulTextBuffer.at_indexOf s row c line hrow)

end

end TextBuffer

end TaskLine
