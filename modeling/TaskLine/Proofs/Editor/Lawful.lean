import TaskLine.Editor.Buffer
import TaskLine.Proofs.Editor.Positions

/-!
# The buffers at hand

The buffers that an editor is run with keep to what is relied on of a library of text buffers. Every
position of a text is that of a place in its lines (`TextBuffer.exists_at`), and from the text in
front of the position the row and the column of the place are read off again (`At.count_take_join`,
`At.colOf_eq`).
-/

namespace TaskLine

open Text (join)

namespace TextBuffer

variable {lines : List Text} {line : Text} {row col pos : Nat}

/-! ## Positions of places -/

theorem exists_at (hpos : pos ≤ (join ['\n'] lines).length) (hne : lines ≠ []) :
    ∃ row col line, At lines row col pos line := by
  induction lines generalizing pos with
  | nil => exact absurd rfl hne
  | cons first lines ih =>
      by_cases hfirst : pos ≤ first.length
      · exact ⟨0, pos, first, rfl, hfirst, (Nat.zero_add pos).symm⟩
      · cases lines with
        | nil =>
            rw [Text.join_singleton] at hpos
            exact absurd hpos hfirst
        | cons second lines =>
            rw [Text.join_cons_cons, List.length_append, List.length_append,
              List.length_singleton] at hpos
            have hrest : pos - (first.length + 1) ≤ (join ['\n'] (second :: lines)).length := by
              omega
            obtain ⟨row, col, line, h⟩ := ih hrest (List.cons_ne_nil _ _)
            refine ⟨row + 1, col, line, h.here, h.within, ?_⟩
            rw [List.take_succ_cons, startOf_cons, Nat.add_assoc _ _ col, ← h.pos_eq]
            omega

namespace At

variable (h : At lines row col pos line)

include h

theorem le_length : pos ≤ (join ['\n'] lines).length := by
  have htake := congrArg List.length h.take_join
  have hcol := h.within
  have hpos := h.pos_eq
  rw [List.length_take, List.length_append, List.length_take, Nat.min_eq_left hcol] at htake
  rw [startOf] at hpos
  omega

theorem colOf_eq (hlines : ∀ line ∈ lines, '\n' ∉ line) :
    Buffer.colOf (join ['\n'] lines) pos = col := by
  have hline := hlines line (List.mem_of_getElem? h.here)
  have hchars : ∀ c ∈ (line.take col).reverse, decide (c ≠ '\n') = true := by
    intro c hc
    rw [decide_eq_true_eq]
    rintro rfl
    exact hline (List.mem_of_mem_take (List.mem_reverse.mp hc))
  have habove : ∀ above : List Text,
      ((above.flatMap (· ++ ['\n'])).reverse.takeWhile (· ≠ '\n')) = [] := by
    intro above
    rcases above.eq_nil_or_concat with rfl | ⟨above, last, rfl⟩
    · rfl
    · simp
  rw [Buffer.colOf, h.take_join, List.reverse_append, List.takeWhile_append_of_pos hchars, habove,
    List.append_nil, List.length_reverse, List.length_take, Nat.min_eq_left h.within,
    Nat.sub_eq_zero_of_le h.le_length, Nat.add_zero]

end At

end TextBuffer

/-! ## The laws -/

namespace Buffer

open TextBuffer

theorem rowStart_eq (s : Text) (row : Nat) : rowStart s row = startOf ((linesOf s).take row) := by
  rw [rowStart]
  induction (linesOf s).take row with
  | nil => rfl
  | cons first above ih => rw [List.foldr_cons, ih, startOf_cons]

theorem at_position {s : Text} {i : Nat} (hi : i ≤ s.length) :
    At (linesOf s) (rowOf s i) (colOf s i) i (lineOf s i) := by
  have hlines : ∀ line ∈ linesOf s, '\n' ∉ line := Text.notMem_of_mem_splitOn s
  have hjoin : join ['\n'] (linesOf s) = s := Text.join_splitOn s
  obtain ⟨row, col, line, h⟩ : ∃ row col line, At (linesOf s) row col i line :=
    exists_at (hjoin.symm ▸ hi) (Text.splitOn_ne_nil s)
  have hrow : rowOf (join ['\n'] (linesOf s)) i = row := h.count_take_join hlines
  have hcol := h.colOf_eq hlines
  rw [hjoin] at hrow hcol
  have hline : lineOf s i = line := by
    rw [lineOf, hrow, h.here, Option.getD_some]
  rw [hrow, hcol, hline]
  exact h

theorem at_indexOf {s line : Text} {row : Nat} (col : Int) (hrow : (linesOf s)[row]? = some line) :
    At (linesOf s) row (clampTo line.length col).toNat (indexOf s row col) line := by
  have hlt := (List.getElem?_eq_some_iff.mp hrow).1
  refine ⟨hrow, ?_, ?_⟩
  · rw [clampTo]
    omega
  · rw [indexOf, Nat.min_eq_left (Nat.le_sub_one_of_lt hlt), rowStart_eq, hrow, Option.getD_some]

theorem indexOf_le (s : Text) (row : Nat) (col : Int) : indexOf s row col ≤ s.length := by
  have hlength := List.length_pos_iff.mpr (Text.splitOn_ne_nil s)
  have hrow : min row ((linesOf s).length - 1) < (linesOf s).length := by
    rw [linesOf]
    omega
  have hle := (at_indexOf col (List.getElem?_eq_getElem hrow)).le_length
  rw [show join ['\n'] (linesOf s) = s from Text.join_splitOn s] at hle
  rw [indexOf] at hle ⊢
  rwa [Nat.min_eq_left (Nat.min_le_right row _)] at hle

theorem announces_edited (b b' : Buffer) : (b.edited b').Announces b := rfl

instance : LawfulTextBuffer Buffer where
  pos_ofText _ _ _ := rfl
  linesOf_eq _ := rfl
  at_position _ _ := at_position
  at_indexOf _ _ col _ := at_indexOf col
  indexOf_le := indexOf_le
  text_put _ _ _ _ := rfl
  pos_put _ _ _ _ := rfl
  announces_put _ _ _ _ := announces_edited ..
  text_moveTo _ _ := rfl
  announces_moveTo _ _ := announces_edited ..
  text_newline _ _ := rfl
  pos_newline _ _ := rfl
  announces_newline _ _ := announces_edited ..
  text_setAnchor _ _ := rfl
  pos_setAnchor _ _ := rfl

end Buffer

end TaskLine
