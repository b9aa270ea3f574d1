import TaskLine.Proofs.Breaks

/-!
# Reading what was written

A text that is read and written again is the same text with the dominant line break in the place of
every other (`text_ofText`). What is written is read again as it was, the line break and the end of
the last line included (`Sound.ofText_text`): all its breaks are of one kind, so that kind
dominates.

The lines of a document may give way to others before it is written. These are read again as well,
unless the last of them is empty and no break follows it: the break in front of it then counts as
the one that ends the line before (`reread_iff`, `emptied_last_line_lost`).
-/

namespace TaskLine.Markdown

open Text (Unbroken join join_singleton join_cons_cons join_append_cons)

variable {s nl line : Text} {lines : List Text} {m : Markdown}

/-! ## Counting breaks -/

/-- Every line break of a text becomes `nl`: CR LF, LF and CR, the longest first. -/
def rebroken (nl : Text) : Text → Text
  | '\r' :: '\n' :: cs => nl ++ rebroken nl cs
  | c :: cs => if c = '\n' ∨ c = '\r' then nl ++ rebroken nl cs else c :: rebroken nl cs
  | [] => []

/-- How many LFs of a text stand alone, with no CR in front of them. -/
def countAlone : Text → Nat
  | '\r' :: '\n' :: cs => countAlone cs
  | c :: cs => if c = '\n' then countAlone cs + 1 else countAlone cs
  | [] => 0

/-- An LF stands alone or in a pair. -/
theorem count_feed (s : Text) : s.count '\n' = countPairs s + countAlone s := by
  induction s using countAlone.induct with
  | case1 cs ih =>
      rw [countPairs, countAlone, List.count_cons_of_ne (by decide), List.count_cons_self, ih]
      omega
  | case2 cs hpair ih =>
      rw [countPairs, countAlone, if_pos rfl, List.count_cons_self, ih]
      · omega
      · exact hpair
      · exact hpair
  | case3 c cs hpair hc ih =>
      rw [countPairs, countAlone, if_neg hc, List.count_cons_of_ne hc, ih]
      · exact hpair
      · exact hpair
  | case4 => rfl

theorem dominantBreak_eq (s : Text) :
    dominantBreak s = if countAlone s < countPairs s then ['\r', '\n'] else ['\n'] := by
  rw [dominantBreak, count_feed, Nat.add_sub_cancel_left]

theorem countPairs_append (hline : Unbroken line) (s : Text) :
    countPairs (line ++ s) = countPairs s := by
  induction line with
  | nil => rfl
  | cons c line ih =>
      obtain ⟨hc, hline⟩ := List.forall_mem_cons.mp hline
      rw [List.cons_append, countPairs, ih hline]
      exact fun _ hr _ => hc.2 hr

theorem countAlone_append (hline : Unbroken line) (s : Text) :
    countAlone (line ++ s) = countAlone s := by
  induction line with
  | nil => rfl
  | cons c line ih =>
      obtain ⟨hc, hline⟩ := List.forall_mem_cons.mp hline
      rw [List.cons_append, countAlone, if_neg hc.1, ih hline]
      exact fun _ hr _ => hc.2 hr

/-- Lines that are joined by LFs make no pairs. -/
theorem countPairs_join_feed (hlines : ∀ line ∈ lines, Unbroken line) (s : Text) :
    countPairs (join ['\n'] lines ++ s) = countPairs s := by
  induction lines with
  | nil => rfl
  | cons line lines ih =>
      obtain ⟨hline, hlines⟩ := List.forall_mem_cons.mp hlines
      cases lines with
      | nil => rw [join_singleton, countPairs_append hline]
      | cons line' lines =>
          rw [join_cons_cons, List.append_assoc, countPairs_append hline]
          exact ih hlines

/-- Lines that are joined by pairs have one pair between each two and no LF alone. -/
theorem count_join_pair (hlines : ∀ line ∈ lines, Unbroken line) (s : Text) :
    countPairs (join ['\r', '\n'] lines ++ s) = lines.length - 1 + countPairs s ∧
      countAlone (join ['\r', '\n'] lines ++ s) = countAlone s := by
  induction lines with
  | nil => exact ⟨(Nat.zero_add _).symm, rfl⟩
  | cons line lines ih =>
      obtain ⟨hline, hlines⟩ := List.forall_mem_cons.mp hlines
      cases lines with
      | nil =>
          rw [join_singleton, countPairs_append hline, countAlone_append hline]
          exact ⟨(Nat.zero_add _).symm, rfl⟩
      | cons line' lines =>
          obtain ⟨hpairs, halone⟩ := ih hlines
          rw [join_cons_cons, List.append_assoc, countPairs_append hline, countAlone_append hline]
          refine ⟨?_, halone⟩
          show countPairs (join ['\r', '\n'] (line' :: lines) ++ s) + 1 = _
          rw [hpairs]
          simp only [List.length_cons]
          omega

/-! ## Writing what was read -/

theorem join_broken (nl s : Text) : join nl (broken s) = rebroken nl s := by
  have hbreak : ∀ cs, join nl ([] :: broken cs) = nl ++ join nl (broken cs) := fun cs =>
    join_cons_cons nl [] _ _
  induction s using splitBreaks.induct with
  | case1 => rw [broken, splitBreaks, rebroken, join_singleton]
  | case2 cs _ _ _ ih =>
      rw [rebroken, ← ih, ← hbreak]
      rfl
  | case3 c cs hpair _ _ _ hc ih =>
      have hc : c = '\n' ∨ c = '\r' := by simpa using hc
      rw [rebroken, if_pos hc, ← ih, ← hbreak, broken_cons_of_break hc hpair]
      exact hpair
  | case4 c cs hpair _ _ _ hc ih =>
      have hc : c ≠ '\n' ∧ c ≠ '\r' := by simpa using hc
      rw [rebroken, if_neg (not_or.mpr hc), ← ih, broken_cons_of_unbroken hc, broken]
      · cases (splitBreaks cs).2 with
        | nil => rw [join_singleton, join_singleton]
        | cons line lines => rw [join_cons_cons, join_cons_cons, List.cons_append]
      · exact hpair

/-- A text has more lines than pairs. -/
theorem countPairs_lt_length_broken (s : Text) : countPairs s < (broken s).length := by
  induction s using splitBreaks.induct with
  | case1 => exact Nat.zero_lt_one
  | case2 cs _ _ _ ih => exact Nat.succ_lt_succ ih
  | case3 c cs hpair _ _ _ hc ih =>
      rw [countPairs, broken_cons_of_break (by simpa using hc) hpair]
      · exact Nat.lt_succ_of_lt ih
      · exact hpair
  | case4 c cs hpair _ _ _ hc ih =>
      rw [countPairs, broken_cons_of_unbroken (by simpa using hc)]
      · exact ih
      · exact hpair

/-- A last character that is a break has an empty line behind it, and a line in front of it. -/
theorem exists_broken_of_endsInBreak (h : endsInBreak s = true) :
    ∃ lines, lines ≠ [] ∧ broken s = lines ++ [[]] := by
  have hrest : ∀ {c : Char} {cs : Text}, cs ≠ [] → endsInBreak (c :: cs) = endsInBreak cs := by
    intro c cs hcs
    obtain ⟨d, cs, rfl⟩ := List.exists_cons_of_ne_nil hcs
    rw [endsInBreak, List.getLast?_cons_cons, ← endsInBreak]
  induction s using splitBreaks.induct with
  | case1 => cases h
  | case2 cs _ _ _ ih =>
      by_cases hcs : cs = []
      · exact ⟨[[]], List.cons_ne_nil _ _, by rw [hcs]; rfl⟩
      · rw [hrest (List.cons_ne_nil _ _), hrest hcs] at h
        obtain ⟨lines, -, hlines⟩ := ih h
        exact ⟨[] :: lines, List.cons_ne_nil _ _, congrArg ([] :: ·) hlines⟩
  | case3 c cs hpair _ _ _ hc ih =>
      rw [broken_cons_of_break (by simpa using hc) hpair]
      by_cases hcs : cs = []
      · exact ⟨[[]], List.cons_ne_nil _ _, by rw [hcs]; rfl⟩
      · rw [hrest hcs] at h
        obtain ⟨lines, -, hlines⟩ := ih h
        exact ⟨[] :: lines, List.cons_ne_nil _ _, congrArg ([] :: ·) hlines⟩
  | case4 c cs hpair _ _ _ hc ih =>
      have hc : c ≠ '\n' ∧ c ≠ '\r' := by simpa using hc
      by_cases hcs : cs = []
      · rw [hcs, show ([c] : Text) = [] ++ [c] from rfl, endsInBreak_concat] at h
        exact absurd h (by simpa using hc)
      · rw [hrest hcs] at h
        obtain ⟨lines, hne, hlines⟩ := ih h
        obtain ⟨first, lines, rfl⟩ := List.exists_cons_of_ne_nil hne
        obtain ⟨hfirst, hlater⟩ := List.cons.inj hlines
        exact ⟨(c :: first) :: lines, List.cons_ne_nil _ _, by
          rw [broken_cons_of_unbroken hc, hfirst, hlater]; rfl⟩

theorem join_concat_nil (nl : Text) (hne : lines ≠ []) :
    join nl (lines ++ [[]]) = join nl lines ++ nl := by
  obtain ⟨front, line, rfl⟩ := lines.eq_nil_or_concat.resolve_left hne
  rw [List.concat_eq_append, List.append_assoc, List.singleton_append, join_append_cons,
    join_append_cons, join_cons_cons, join_singleton, join_singleton, List.append_nil,
    List.append_assoc]

/-- A text that is read and written again has its dominant break in the place of every other. -/
theorem text_ofText (s : Text) : (ofText s).text = rebroken (dominantBreak s) s := by
  have hlines := ofText_lines s
  by_cases hempty : s = []
  · rw [hempty]
    rfl
  rw [if_neg hempty] at hlines
  rw [← join_broken]
  by_cases hend : endsInBreak s = true
  · obtain ⟨lines, hne, hbroken⟩ := exists_broken_of_endsInBreak hend
    rw [if_pos hend, hbroken, List.dropLast_concat] at hlines
    rw [text_eq (hlines ▸ hne), hlines, hbroken, join_concat_nil _ hne,
      if_pos (show (ofText s).trailing = true from hend)]
    rfl
  · rw [if_neg hend] at hlines
    rw [text_eq (hlines ▸ List.cons_ne_nil _ _), hlines,
      if_neg (show ¬(ofText s).trailing = true from hend), List.append_nil]
    rfl

/-! ## Reading what was written -/

/-- Whether breaks are written between the lines of a document or behind them. -/
def HasBreak (m : Markdown) : Prop := m.lines ≠ [] ∧ (m.trailing = true ∨ 2 ≤ m.lines.length)

/-- What is written has breaks of one kind. -/
theorem Sound.dominantBreak_text (h : m.Sound) (hbreak : m.newline = ['\r', '\n'] → m.HasBreak) :
    dominantBreak m.text = m.newline := by
  rw [dominantBreak_eq]
  rcases h.newline with hnl | hnl
  · have hpairs : countPairs m.text = 0 := by
      rw [text]
      split
      · rfl
      · rw [hnl, countPairs_join_feed h.unbroken]
        split <;> rfl
    rw [hpairs, if_neg (Nat.not_lt_zero _), hnl]
  · obtain ⟨hne, hbreak⟩ := hbreak hnl
    obtain ⟨hpairs, halone⟩ :=
      count_join_pair h.unbroken (if m.trailing then ['\r', '\n'] else [])
    rw [text_eq hne, hnl, hpairs, halone, if_pos]
    cases htrailing : m.trailing with
    | true => exact Nat.succ_pos _
    | false =>
        have htwo := hbreak.resolve_left (by simp [htrailing])
        show 0 < m.lines.length - 1 + 0
        omega

/-- What is written is read again as it was. -/
theorem Sound.ofText_text (h : m.Sound) (hbreak : m.newline = ['\r', '\n'] → m.HasBreak)
    (hempty : m.lines = [] → m.trailing = false) : ofText m.text = m := by
  have htrailing : endsInBreak m.text = m.trailing := by
    by_cases hne : m.lines = []
    · rw [text, hempty hne, hne]
      rfl
    · exact (h.endsInBreak_text hne).2
  have hlines := h.lines_ofText_text
  have hnewline := h.dominantBreak_text hbreak
  obtain ⟨lines, newline, trailing⟩ := m
  rw [ofText] at hlines ⊢
  exact congr (congr (congrArg Markdown.mk hlines) hnewline) htrailing

theorem lines_ofText_eq_nil_iff (s : Text) : (ofText s).lines = [] ↔ s = [] := by
  rw [ofText_lines]
  by_cases hempty : s = []
  · rw [if_pos hempty]
    exact iff_of_true rfl hempty
  rw [if_neg hempty]
  refine iff_of_false (fun hlines => ?_) hempty
  split at hlines
  next hend =>
    obtain ⟨lines, hsome, hbroken⟩ := exists_broken_of_endsInBreak hend
    rw [hbroken, List.dropLast_concat] at hlines
    exact hsome hlines
  · cases hlines

/-- Where pairs dominate a text there is a break. -/
theorem hasBreak_ofText (hpairs : (ofText s).newline = ['\r', '\n']) : (ofText s).HasBreak := by
  have hsome : 0 < countPairs s := by
    rw [show (ofText s).newline = dominantBreak s from rfl, dominantBreak_eq] at hpairs
    split at hpairs
    next hmore => exact Nat.zero_lt_of_lt hmore
    · cases hpairs
  have hne : s ≠ [] := by
    rintro rfl
    cases hsome
  refine ⟨mt (lines_ofText_eq_nil_iff s).mp hne, ?_⟩
  by_cases hend : endsInBreak s = true
  · exact .inl hend
  · right
    rw [ofText_lines, if_neg hne, if_neg hend]
    exact Nat.lt_of_le_of_lt hsome (countPairs_lt_length_broken s)

/-- A text that was read is written with its dominant break - CR LF if it has more of them than of
LFs that stand alone - in the place of every other, and is read again as it was. If other lines are
written instead, as many and none with a break in it, they are read again as well, but for an empty
last line that no break follows. -/
theorem reread_iff (s : Text) :
    let m := ofText s
    m.text = rebroken (if countAlone s < countPairs s then ['\r', '\n'] else ['\n']) s ∧
      ofText m.text = m ∧
      ∀ lines : List Text, lines.length = m.lines.length → (∀ line ∈ lines, Unbroken line) →
        (ofText { m with lines }.text = { m with lines } ↔
          ¬(m.trailing = false ∧ lines.getLast? = some [])) := by
  intro m
  have hsound : m.Sound := sound_ofText s
  have hnone : m.lines = [] → m.trailing = false := fun hlines => by
    rw [show m = ofText s from rfl, (lines_ofText_eq_nil_iff s).mp hlines]
    rfl
  refine ⟨?_, hsound.ofText_text hasBreak_ofText hnone, fun lines hlength hlines => ?_⟩
  · rw [← dominantBreak_eq]
    exact text_ofText s
  constructor
  · rintro hread ⟨htrailing, hlast⟩
    exact (hread ▸ sound_ofText _ : Sound { m with lines }).last htrailing hlast
  · intro hlast
    have hsound' : Sound { m with lines } :=
      ⟨hsound.newline, hlines, fun htrailing h => hlast ⟨htrailing, h⟩⟩
    refine hsound'.ofText_text (fun hpairs => ?_) fun hempty => hnone ?_
    · obtain ⟨hne, hbreak⟩ := hasBreak_ofText (s := s) hpairs
      refine ⟨?_, hlength ▸ hbreak⟩
      exact List.length_pos_iff.mp (hlength ▸ List.length_pos_iff.mpr hne)
    · exact List.length_eq_zero_iff.mp (hlength ▸ List.length_eq_zero_iff.mpr hempty)

/-- A text with more pairs than LFs alone, and with a CR alone: two empty lines take the place of
the last three, and the break behind the last line is kept. -/
theorem reread_iff_mixedBreaks :
    let m := ofText "a\r\nb\rc\n\r\n".toList
    m.text = "a\r\nb\r\nc\r\n\r\n".toList ∧ m.lines = [['a'], ['b'], ['c'], []] ∧
      ofText { m with lines := [['x'], ['b'], [], []] }.text =
        { m with lines := [['x'], ['b'], [], []] } := by
  obtain ⟨htext, -, hread⟩ := reread_iff "a\r\nb\rc\n\r\n".toList
  refine ⟨htext.trans (by decide), by decide, ?_⟩
  exact (hread [['x'], ['b'], [], []] (by decide) (by decide)).mpr (by decide)

/-- An empty last line with no break behind it is not read again, also where it is not the only
line. -/
theorem emptied_last_line_lost :
    ¬∀ (s : Text) (lines : List Text), lines.length = (ofText s).lines.length →
      (∀ line ∈ lines, Unbroken line) → ¬((ofText s).trailing = false ∧ lines = [[]]) →
      ofText { ofText s with lines }.text = { ofText s with lines } := by
  intro h
  exact absurd (h "a\nb".toList [['a'], []] (by decide) (by decide) (by decide)) (by decide)

end TaskLine.Markdown
