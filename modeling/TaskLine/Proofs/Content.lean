import TaskLine.Proofs.Clearing
import TaskLine.Proofs.Frame
import TaskLine.Proofs.Layout
import TaskLine.Proofs.Tokens

/-!
# What formatting keeps

An account of every character of a line, white space and arrows apart. What
formatting writes is the head, the text, the wrappers that have a place, the
tokens and the block reference. Against the line itself this differs in three
ways (`count_formatLine`): wrappers that claim a place already taken are
dropped; tokens are written as they were *found*, each shape in the untouched
text; and they are missing from the text as they were *taken out*, each shape
in what the shapes before it have left.

So a character is lost just when the tokens that were taken out hold more of it
than the tokens that were found (`count_le_formatLine_iff`): a snooze that
comes to stand alone when the token glued to it goes is taken out but was never
found.
-/

namespace TaskLine

open Text (Blank row collapse isSpace)
open Markup (Template)

/-! ## Scans -/

theorem count_not_space {c : Char} (hc : isSpace c = false) : (' ' == c) = false := by
  rw [beq_eq_false_iff_ne]
  rintro rfl
  cases hc

/-- A scan loses no character: there are the chunks that were found and what is left. -/
theorem Chunk.count_joined {c : Char} (hc : isSpace c = false) (ks : List Chunk) :
    (joined ks).count c = (cleared ks).count c + (found ks).flatten.count c :=
  countP_joined (· == c) (fun _ => [' ']) (fun _ => by simp [count_not_space hc]) ks

theorem Markup.count_wrappers {c : Char} (hc : isSpace c = false) (s : Text) :
    s.count c = (removeWrappers s).count c + (wrappers s).flatten.count c := by
  have h := Chunk.count_joined hc (chunks s)
  rwa [joined_chunks] at h

namespace DateToken

/-- The tokens that are taken out of a text when these shapes are removed one after the other. -/
def taken : List Shape → Text → List Text
  | [], _ => []
  | sh :: shs, s => Chunk.found (sh.chunks s) ++ taken shs (Chunk.cleared (sh.chunks s))

/-- The tokens that are taken out of a text when all shapes are removed. -/
def takenOut (s : Text) : List Text := taken Shape.all s

theorem Shape.count_chunks {c : Char} (hc : isSpace c = false) (sh : Shape) (s : Text) :
    s.count c =
      (Chunk.cleared (sh.chunks s)).count c + (Chunk.found (sh.chunks s)).flatten.count c := by
  have h := Chunk.count_joined hc (sh.chunks s)
  rwa [sh.joined_chunks] at h

theorem count_taken {c : Char} (hc : isSpace c = false) (shs : List Shape) (s : Text) :
    s.count c =
      (shs.foldl (fun t sh => Chunk.cleared (sh.chunks t)) s).count c +
        (taken shs s).flatten.count c := by
  induction shs generalizing s with
  | nil => rfl
  | cons sh shs ih =>
      have hchunks := sh.count_chunks hc s
      have ih := ih (Chunk.cleared (sh.chunks s))
      rw [List.foldl_cons, taken, List.flatten_append, List.count_append]
      omega

theorem count_takenOut {c : Char} (hc : isSpace c = false) (s : Text) :
    s.count c = (remove s).count c + (takenOut s).flatten.count c :=
  count_taken hc Shape.all s

end DateToken

/-! ## Slots -/

/-- The templates that are dropped: those behind the first one that claims a place for a single
wrapper, and a delegate without an assignee. -/
def Slots.dropped (ts : List Template) : List Template :=
  (ts.filter (·.place = .parentLink)).tail ++ (ts.filter (·.place = .itemType)).tail
    ++ (ts.filter (·.place = .assignee)).tail ++ (ts.filter (·.place = .delegate)).tail
    ++ (if ts.find? (·.place = .assignee) = none
        then (ts.find? (·.place = .delegate)).toList else [])

/-- The wrappers of a line that are dropped when it is formatted. -/
def droppedWrappers (ws : List Text) : List Text :=
  (Slots.dropped (ws.map Template.read)).map (·.html)

theorem filter_eq_find?_tail (p : Template → Bool) (ts : List Template) :
    ts.filter p = (ts.find? p).toList ++ (ts.filter p).tail := by
  rw [← List.head?_filter]
  cases ts.filter p <;> rfl

/-- Every template has exactly one place. -/
theorem count_places (x : Template) (ts : List Template) :
    ts.count x = (ts.filter (·.place = .parentLink)).count x +
      (ts.filter (·.place = .itemType)).count x + (ts.filter (·.place = .state)).count x +
      (ts.filter (·.place = .other)).count x + (ts.filter (·.place = .assignee)).count x +
      (ts.filter (·.place = .delegate)).count x + (ts.filter (·.place = .metadata)).count x := by
  have hcount : ∀ q : Template.Place,
      (ts.filter (·.place = q)).count x = if x.place = q then ts.count x else 0 := by
    intro q
    split
    · rename_i hq
      exact List.count_filter (by simpa using hq)
    · rename_i hq
      refine List.count_eq_zero_of_not_mem fun hmem => hq ?_
      simpa using (List.mem_filter.mp hmem).2
  simp only [hcount]
  cases x.place <;> simp

/-- A template is written or dropped. -/
theorem Slots.written_append_dropped_perm (ts : List Template) :
    ((ofTemplates ts).written ++ dropped ts).Perm ts := by
  refine List.perm_iff_count.mpr fun x => ?_
  have hfind : ∀ q : Template.Place, (ts.filter (·.place = q)).count x =
      (ts.find? (·.place = q)).toList.count x + (ts.filter (·.place = q)).tail.count x := by
    intro q
    rw [← List.count_append, ← filter_eq_find?_tail]
  rw [count_places x ts, hfind .parentLink, hfind .itemType, hfind .assignee, hfind .delegate]
  simp only [written, dropped, ofTemplates_eq, List.count_append]
  by_cases hnone : ts.find? (·.place = .assignee) = none
  · simp only [hnone, reduceIte, Option.toList_none, List.count_nil]
    omega
  · simp only [hnone, reduceIte, List.count_nil]
    omega

theorem Slots.map_html_read (ws : List Text) : (ws.map Template.read).map (·.html) = ws := by
  rw [List.map_map]
  exact List.map_id _

/-- A wrapper is written or dropped. -/
theorem count_droppedWrappers (c : Char) (ws : List Text) :
    ws.flatten.count c =
      ((Slots.ofWrappers ws).written.map (·.html)).flatten.count c +
        (droppedWrappers ws).flatten.count c := by
  have h := ((Slots.written_append_dropped_perm (ws.map Template.read)).map (·.html)).flatten
  rw [Slots.map_html_read, List.map_append, List.flatten_append] at h
  rw [← h.count_eq c, List.count_append]
  rfl

/-! ## The written line -/

theorem Slots.count_people {c : Char} (harrow : c ≠ DateToken.arrow) (s : Slots) :
    s.people.flatten.count c =
      ((s.assignee.toList ++ if s.assignee = none then [] else s.delegate.toList).map
        (·.html)).flatten.count c := by
  unfold people
  cases ha : s.assignee with
  | none => rfl
  | some a =>
      cases hd : s.delegate with
      | none => rfl
      | some d => simp [List.count_append, harrow.symm]

theorem count_toList_text (c : Char) (s : Text) :
    (present (some s)).toList.flatten.count c = s.count c := by
  by_cases hs : s = []
  · rw [hs]
    rfl
  · rw [present_of_ne_nil hs]
    simp

theorem Task.count_words {c : Char} (harrow : c ≠ DateToken.arrow) (t : Task) :
    ({ t with slots := t.slots.sorted } : Task).words.flatten.count c =
      t.text.count c + (t.slots.written.map (·.html)).flatten.count c +
        t.dates.flatten.count c + (present t.blockId).toList.flatten.count c := by
  have hsorted : ((sortBy otherBefore t.slots.others).map (·.html)).flatten.count c =
      (t.slots.others.map (·.html)).flatten.count c := by
    refine List.Perm.count_eq ?_ c
    exact ((sortBy_perm otherBefore t.slots.others).map _).flatten
  have hpeople := Slots.count_people harrow t.slots
  simp only [words, front, back, tags, Slots.sorted, Slots.written, List.map_append,
    List.flatten_append, List.count_append, hsorted, count_toList_text] at hpeople ⊢
  rw [show (Slots.people { t.slots with others := sortBy otherBefore t.slots.others }) =
    t.slots.people from rfl, hpeople]
  omega

section Written

variable {c : Char} (hc : isSpace c = false)
include hc

theorem count_row (ws : List Text) : (row ws).count c = ws.flatten.count c := by
  induction ws with
  | nil => rfl
  | cons w ws ih =>
      rw [Text.row_cons, List.count_cons, List.count_append, ih, List.flatten_cons,
        List.count_append, count_not_space hc]
      rfl

theorem Line.count_guardTag (s : Text) : (guardTag s).count c = s.count c := by
  unfold guardTag
  split
  · obtain ⟨g, hg, hs⟩ := Text.exists_trimRight_blank s
    conv_rhs => rw [hs]
    rw [List.count_append, List.count_append, Text.count_of_blank hc hg,
      Text.count_of_blank hc (Blank.singleton Text.isSpace_space)]
  · rfl

/-- The head and the rest, and of the rest the content and the block reference. -/
theorem Frame.count_line {line : Text} {frame : Frame} (h : Frame.read? line = some frame) :
    line.count c = frame.head.count c + frame.content.count c +
      (present frame.blockId).toList.flatten.count c := by
  rw [Frame.read?, Option.map_eq_some_iff] at h
  obtain ⟨⟨head, rest⟩, hhead, rfl⟩ := h
  obtain ⟨rfl, -, -⟩ := Line.splitHead?_eq_some_iff.mp hhead
  rw [List.count_append, Nat.add_assoc]
  congr 1
  by_cases href : Line.EndsInReference rest
  · obtain ⟨y, name, g, hne, hname, hg, rfl⟩ := href
    obtain ⟨g', hg', hy⟩ := Text.exists_trimRight_blank y
    simp only [Line.splitBlockId_append hne hname hg, present_of_ne_nil (List.cons_ne_nil _ _)]
    conv_lhs => rw [hy]
    simp [List.count_append, List.count_cons, Text.count_of_blank hc hg,
      Text.count_of_blank hc hg', count_not_space hc]
  · simp [Line.splitBlockId_of_not href, present]

theorem Task.count_plainText (harrow : c ≠ DateToken.arrow) (s : Text) :
    (plainText s).count c = (DateToken.remove s).count c := by
  rw [plainText, Text.count_collapse hc]
  induction DateToken.remove s with
  | nil => rfl
  | cons d t ih =>
      have hcons : Text.replace DateToken.arrow ' ' (d :: t) =
          (if d = DateToken.arrow then ' ' else d) :: Text.replace DateToken.arrow ' ' t := rfl
      rw [hcons, List.count_cons, List.count_cons, ih]
      split
      · rename_i hd
        subst hd
        rw [count_not_space hc, show (DateToken.arrow == c) = false by simp [harrow.symm]]
      · rfl

/-- The characters of a line against those of its canonical form. -/
theorem count_formatLine (harrow : c ≠ DateToken.arrow) {line : Text} {frame : Frame}
    (h : Frame.read? line = some frame) :
    line.count c + (DateToken.ordered (Markup.removeWrappers frame.content)).flatten.count c =
      (formatLine {} line).count c +
        (DateToken.takenOut (Markup.removeWrappers frame.content)).flatten.count c +
        (droppedWrappers (Markup.wrappers frame.content)).flatten.count c := by
  have hcontent := Markup.count_wrappers hc frame.content
  have hwrappers := count_droppedWrappers c (Markup.wrappers frame.content)
  have htokens := DateToken.count_takenOut hc (Markup.removeWrappers frame.content)
  have htext := Task.count_plainText hc harrow (Markup.removeWrappers frame.content)
  rw [formatLine_eq h, Line.count_guardTag hc, Text.count_collapse hc, List.count_append,
    count_row hc, Task.count_words harrow, Frame.count_line hc h]
  simp only [Frame.task]
  omega

end Written

/-- Dropped wrappers apart, a character occurs in the canonical form as often as in the line,
just if the tokens taken out of the text hold it no more often than the tokens found in it. -/
theorem count_le_formatLine_iff {line : Text} {frame : Frame} (h : Frame.read? line = some frame)
    {c : Char} (hc : isSpace c = false) (harrow : c ≠ DateToken.arrow) :
    line.count c ≤ (formatLine {} line).count c +
        (droppedWrappers (Markup.wrappers frame.content)).flatten.count c ↔
      (DateToken.takenOut (Markup.removeWrappers frame.content)).flatten.count c ≤
        (DateToken.ordered (Markup.removeWrappers frame.content)).flatten.count c := by
  have hcount := count_formatLine hc harrow h
  omega

/-- A snooze glued to a date stands alone once the date is gone: it is taken out of the text,
and no scan has found it. -/
def gluedSnooze : Text := "- [ ] 💤📅 2024-01-01".toList

theorem count_le_formatLine_iff_gluedSnooze :
    ∃ frame, Frame.read? gluedSnooze = some frame ∧
      (gluedSnooze.count '💤' ≤ (formatLine {} gluedSnooze).count '💤' +
          (droppedWrappers (Markup.wrappers frame.content)).flatten.count '💤' ↔
        (DateToken.takenOut (Markup.removeWrappers frame.content)).flatten.count '💤' ≤
          (DateToken.ordered (Markup.removeWrappers frame.content)).flatten.count '💤') :=
  ⟨_, rfl, count_le_formatLine_iff rfl (by decide) (by decide)⟩

/-- So formatting can lose a character that the user wrote. -/
theorem gluedSnooze_loses_mark :
    ¬ ∀ (line : Text) (frame : Frame) (c : Char), Frame.read? line = some frame →
      isSpace c = false → c ≠ DateToken.arrow →
        line.count c ≤ (formatLine {} line).count c +
          (droppedWrappers (Markup.wrappers frame.content)).flatten.count c := by
  intro h
  have hlost := h gluedSnooze _ '💤' rfl (by decide) (by decide)
  revert hlost
  decide

end TaskLine
