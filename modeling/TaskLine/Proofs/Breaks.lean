import TaskLine.Markdown

/-!
# Line breaks

The lines of a document hold no line break (`unbroken_of_mem_broken`), and lines without one are
read again as they were when they have been written (`Markdown.Sound.lines_ofText_text`). One thing
has to be seen to: where no break follows the last line that line must not be empty, since a break
in front of it would be taken for the one behind the line before.
-/

namespace TaskLine

/-- No line break stands in a text. -/
def Text.Unbroken (s : Text) : Prop := ∀ c ∈ s, c ≠ '\n' ∧ c ≠ '\r'

instance (s : Text) : Decidable s.Unbroken := List.decidableBAll _ s

namespace Markdown

open Text (Unbroken join join_singleton join_cons_cons join_append_cons)

variable {s nl line : Text} {lines : List Text} {m : Markdown}

/-! ## Breaking a text into lines -/

/-- The lines of a text; at least one. -/
def broken (s : Text) : List Text := (splitBreaks s).1 :: (splitBreaks s).2

theorem splitBreaks_cons {c : Char} (cs : Text) (hc : c = '\r' → cs.head? ≠ some '\n') :
    splitBreaks (c :: cs) =
      if c = '\n' ∨ c = '\r' then ([], broken cs)
      else (c :: (splitBreaks cs).1, (splitBreaks cs).2) := by
  rw [splitBreaks]
  · simp only [Bool.or_eq_true, decide_eq_true_eq]
    rfl
  · rintro cs' hr rfl
    exact hc hr rfl

theorem broken_cons_of_unbroken {c : Char} (hc : c ≠ '\n' ∧ c ≠ '\r') (cs : Text) :
    broken (c :: cs) = (c :: (splitBreaks cs).1) :: (splitBreaks cs).2 := by
  rw [broken, splitBreaks_cons cs fun h => absurd h hc.2,
    if_neg fun h => h.elim hc.1 hc.2]

theorem broken_cons_of_break {c : Char} {cs : Text} (hc : c = '\n' ∨ c = '\r')
    (hpair : ∀ cs', c = '\r' → cs = '\n' :: cs' → False) : broken (c :: cs) = [] :: broken cs := by
  rw [broken, splitBreaks_cons cs, if_pos hc]
  intro hr hhead
  obtain ⟨cs', rfl⟩ := List.head?_eq_some_iff.mp hhead
  exact hpair cs' hr rfl

theorem unbroken_of_mem_broken : ∀ line ∈ broken s, Unbroken line := by
  induction s using splitBreaks.induct with
  | case1 =>
      intro line hline
      rw [List.mem_singleton.mp hline]
      exact nofun
  | case2 cs _ _ _ ih => exact List.forall_mem_cons.mpr ⟨nofun, ih⟩
  | case3 c cs hpair _ _ _ hc ih =>
      rw [broken_cons_of_break (by simpa using hc) hpair]
      exact List.forall_mem_cons.mpr ⟨nofun, ih⟩
  | case4 c cs _ _ _ _ hc ih =>
      have hc : c ≠ '\n' ∧ c ≠ '\r' := by simpa using hc
      rw [broken_cons_of_unbroken hc]
      obtain ⟨hfirst, hrest⟩ := List.forall_mem_cons.mp ih
      exact List.forall_mem_cons.mpr ⟨List.forall_mem_cons.mpr ⟨hc, hfirst⟩, hrest⟩

/-- A last character that is no break is the end of the last line. -/
theorem exists_broken_concat {c : Char} (hc : c ≠ '\n' ∧ c ≠ '\r') (s : Text) :
    ∃ lines line, broken (s ++ [c]) = lines ++ [line ++ [c]] := by
  induction s using splitBreaks.induct with
  | case1 => exact ⟨[], [], by rw [List.nil_append, broken_cons_of_unbroken hc]; rfl⟩
  | case2 cs _ _ _ ih =>
      obtain ⟨lines, line, hlast⟩ := ih
      exact ⟨[] :: lines, line, congrArg ([] :: ·) hlast⟩
  | case3 b cs hpair _ _ _ hb ih =>
      obtain ⟨lines, line, hlast⟩ := ih
      refine ⟨[] :: lines, line, ?_⟩
      rw [List.cons_append, broken_cons_of_break (by simpa using hb) fun cs' hr hcs => ?_, hlast]
      · rfl
      · cases cs with
        | nil => exact hc.1 (List.cons.inj hcs).1
        | cons d cs => exact hpair cs hr (congrArg (· :: cs) (List.cons.inj hcs).1)
  | case4 b cs _ _ _ _ hb ih =>
      have hb : b ≠ '\n' ∧ b ≠ '\r' := by simpa using hb
      obtain ⟨lines, line, hlast⟩ := ih
      rw [List.cons_append, broken_cons_of_unbroken hb]
      rw [broken] at hlast
      cases lines with
      | nil =>
          obtain ⟨hfirst, hrest⟩ := List.cons.inj hlast
          exact ⟨[], b :: line, by rw [hfirst, hrest]; rfl⟩
      | cons first lines =>
          obtain ⟨hfirst, hrest⟩ := List.cons.inj hlast
          exact ⟨(b :: first) :: lines, line, by rw [hfirst, hrest]; rfl⟩

theorem endsInBreak_concat (s : Text) (c : Char) :
    endsInBreak (s ++ [c]) = (decide (c = '\n') || decide (c = '\r')) := by
  rw [endsInBreak, List.getLast?_concat]
  simp

/-! ## Joining lines -/

/-- A line break as it is written. -/
def IsBreak (nl : Text) : Prop := nl = ['\n'] ∨ nl = ['\r', '\n']

theorem broken_append_break (hnl : IsBreak nl) (hline : Unbroken line) (s : Text) :
    broken (line ++ (nl ++ s)) = line :: broken s := by
  induction line with
  | nil => rcases hnl with rfl | rfl <;> rfl
  | cons c line ih =>
      obtain ⟨hc, hline⟩ := List.forall_mem_cons.mp hline
      have ih := ih hline
      rw [broken, List.cons.injEq] at ih
      rw [List.cons_append, broken_cons_of_unbroken hc, ih.1, ih.2]

theorem broken_of_unbroken (hline : Unbroken line) : broken line = [line] := by
  induction line with
  | nil => rfl
  | cons c line ih =>
      obtain ⟨hc, hline⟩ := List.forall_mem_cons.mp hline
      have ih := ih hline
      rw [broken, List.cons.injEq] at ih
      rw [broken_cons_of_unbroken hc, ih.1, ih.2]

theorem broken_join (hnl : IsBreak nl) (hne : lines ≠ []) (hlines : ∀ line ∈ lines, Unbroken line) :
    broken (join nl lines) = lines ∧ broken (join nl lines ++ nl) = lines ++ [[]] := by
  induction lines with
  | nil => exact absurd rfl hne
  | cons line lines ih =>
      obtain ⟨hline, hlines⟩ := List.forall_mem_cons.mp hlines
      cases lines with
      | nil =>
          have hend := broken_append_break hnl hline []
          rw [List.append_nil] at hend
          rw [join_singleton]
          exact ⟨broken_of_unbroken hline, hend⟩
      | cons line' lines =>
          obtain ⟨hrest, hrest'⟩ := ih (List.cons_ne_nil _ _) hlines
          rw [join_cons_cons]
          constructor
          · rw [broken_append_break hnl hline, hrest]
          · rw [List.append_assoc, List.append_assoc, broken_append_break hnl hline, hrest']
            rfl

/-! ## Documents -/

/-- Written as it is, the document is read again with the same lines. -/
structure Sound (m : Markdown) : Prop where
  newline : IsBreak m.newline
  unbroken : ∀ line ∈ m.lines, Unbroken line
  last : m.trailing = false → m.lines.getLast? ≠ some []

theorem text_eq (hne : m.lines ≠ []) :
    m.text = join m.newline m.lines ++ (if m.trailing then m.newline else []) := by
  rw [text, if_neg (by simpa using hne)]

theorem ofText_lines (s : Text) : (ofText s).lines =
    if s = [] then [] else if endsInBreak s then (broken s).dropLast else broken s := by
  rw [ofText]
  cases s with
  | nil => rfl
  | cons c s => rfl

theorem sound_ofText (s : Text) : (ofText s).Sound where
  newline := by
    rw [ofText]
    dsimp only [dominantBreak]
    split
    · exact .inr rfl
    · exact .inl rfl
  unbroken line hline := by
    rw [ofText_lines] at hline
    split at hline
    · cases hline
    · split at hline
      · exact unbroken_of_mem_broken line (List.dropLast_subset _ hline)
      · exact unbroken_of_mem_broken line hline
  last htrailing := by
    have hend : endsInBreak s = false := htrailing
    rw [ofText_lines, hend]
    rcases s.eq_nil_or_concat with rfl | ⟨s, c, rfl⟩
    · nofun
    · rw [List.concat_eq_append] at hend ⊢
      rw [endsInBreak_concat] at hend
      obtain ⟨lines, line, hlast⟩ := exists_broken_concat (by simpa using hend) s
      rw [if_neg (by simp), if_neg Bool.false_ne_true, hlast, List.getLast?_concat]
      simp

/-- Another line may stand in the place of one, if it is not empty. -/
theorem Sound.set (h : m.Sound) {i : Nat} (hline : Unbroken line) (hne : line ≠ []) :
    { m with lines := m.lines.set i line }.Sound where
  newline := h.newline
  unbroken l hl := by
    rcases List.mem_or_eq_of_mem_set hl with hl | rfl
    · exact h.unbroken l hl
    · exact hline
  last htrailing hlast := by
    rw [List.getLast?_eq_some_iff] at hlast
    obtain ⟨front, hfront⟩ := hlast
    have hlen : m.lines.length = front.length + 1 := by
      simpa using congrArg List.length hfront
    have hget := congrArg (·[front.length]?) hfront
    rw [List.getElem?_set, List.getElem?_concat_length] at hget
    split at hget
    · rw [if_pos (by omega)] at hget
      exact hne (Option.some.inj hget)
    · refine h.last htrailing ?_
      rw [List.getLast?_eq_getElem?, hlen, Nat.add_sub_cancel]
      exact hget

/-- A document with lines is written as a text that ends in a break exactly if one follows its last
line. -/
theorem Sound.endsInBreak_text (h : m.Sound) (hne : m.lines ≠ []) :
    m.text ≠ [] ∧ endsInBreak m.text = m.trailing := by
  rw [text_eq hne]
  cases htrailing : m.trailing with
  | true =>
      rw [if_pos rfl]
      rcases h.newline with hnl | hnl <;> rw [hnl]
      · exact ⟨by simp, endsInBreak_concat _ '\n'⟩
      · rw [show (['\r', '\n'] : Text) = ['\r'] ++ ['\n'] from rfl, ← List.append_assoc]
        exact ⟨by simp, endsInBreak_concat _ '\n'⟩
  | false =>
      obtain ⟨lines, line, hlines⟩ := m.lines.eq_nil_or_concat.resolve_left hne
      rw [List.concat_eq_append] at hlines
      have hline : line ≠ [] := by
        rintro rfl
        exact h.last htrailing (by rw [hlines, List.getLast?_concat])
      obtain ⟨front, c, rfl⟩ := line.eq_nil_or_concat.resolve_left hline
      rw [List.concat_eq_append] at hlines
      have hc := h.unbroken (front ++ [c]) (by simp [hlines]) c (by simp)
      rw [if_neg Bool.false_ne_true, List.append_nil, hlines, join_append_cons, join_singleton,
        ← List.append_assoc, endsInBreak_concat]
      exact ⟨by simp, by simpa using hc⟩

/-- The lines of a document that was written are read again. -/
theorem Sound.lines_ofText_text (h : m.Sound) : (ofText m.text).lines = m.lines := by
  by_cases hempty : m.lines = []
  · rw [text, hempty]
    rfl
  obtain ⟨hjoin, hjoin'⟩ := broken_join h.newline hempty h.unbroken
  obtain ⟨hne, hend⟩ := h.endsInBreak_text hempty
  rw [ofText_lines, if_neg hne, hend, text_eq hempty]
  cases m.trailing with
  | true => rw [if_pos rfl, if_pos rfl, hjoin', List.dropLast_concat]
  | false => rw [if_neg Bool.false_ne_true, if_neg Bool.false_ne_true, List.append_nil, hjoin]

end Markdown

end TaskLine
