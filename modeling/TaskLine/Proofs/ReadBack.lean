import TaskLine.Proofs.Words

/-!
# Reading back what was laid out

A sound task is *legible* (`Task.Legible`) when no part of it can be mistaken
for another once they stand side by side: its text begins no token and holds no
arrow, its tokens are spelled and in order, and no wrapper begins in either.
The words of a legible task behind its head are read as that task
(`Task.Legible.read?_eq`). All that is not kept is how much white space stands
around the text.

Without its wrappers the line is a text strewn with the tokens, and so the
scans find these tokens and no others.
-/

namespace TaskLine

open Text (Blank Firm Tidy row join collapse)
open DateToken (Shape Strewn Quiet Unglued Unmarked InOrder arrow)
open Line (EndsInReference Leads)

/-- The parts of the task, with these date tokens, cannot be mistaken for each other. -/
structure Task.Legible (t : Task) (ts : List (Shape × Text)) : Prop extends t.Sound where
  head : Leads t.head (join [' '] t.words)
  clear : t.Clear
  quiet : Quiet t.text
  noArrow : arrow ∉ t.text
  reference : t.back = [] → ¬EndsInReference t.text
  dates : t.dates = ts.map Prod.snd
  spelled : ∀ x ∈ ts, x.1.Spelled x.2
  inOrder : InOrder ts

/-! ## Taking the parts apart again -/

theorem DateToken.Strewn.of_cons {c : Char} {s bare : Text} {ts : List (Shape × Text)}
    (hc : DateToken.isMark c = false) (h : Strewn (c :: s) ts bare) :
    ∃ bare', bare = c :: bare' ∧ Strewn s ts bare' := by
  generalize hs : c :: s = cs at h
  induction h with
  | nil => cases hs
  | @char d s' bare' _ _ h _ =>
      obtain ⟨rfl, rfl⟩ := List.cons.inj hs
      exact ⟨bare', rfl, h⟩
  | token ht _ _ _ =>
      obtain ⟨m, tail, rfl, hm, -⟩ := ht.exists_mark
      obtain ⟨rfl, -⟩ := List.cons.inj hs
      rw [hm] at hc
      cases hc
  | @quiet q s' bare' _ hq hglue hbare h ih =>
      cases q with
      | nil => exact ih hs
      | cons d q =>
          obtain ⟨rfl, rfl⟩ := List.cons.inj hs
          exact ⟨q ++ bare', rfl, .quiet (hq.of_suffix (List.suffix_cons _ _)) hglue hbare h⟩

/-- Spaces can change places with a space. -/
theorem append_space_cons {m : Text} (hm : ∀ c ∈ m, c = ' ') (s : Text) :
    m ++ ' ' :: s = ' ' :: (m ++ s) := by
  induction m with
  | nil => rfl
  | cons c m ih =>
      obtain rfl := hm c List.mem_cons_self
      rw [List.cons_append, ih fun d hd => hm d (List.mem_cons_of_mem _ hd)]
      rfl

/-- Where the tokens of a row are taken out, only spaces are left. -/
theorem eq_space_of_mem_spaces {α : Type} {l : List α} {c : Char}
    (hc : c ∈ row (l.map fun _ => [' '])) : c = ' ' := by
  simp only [row, List.mem_flatMap, List.mem_map] at hc
  obtain ⟨_, ⟨_, -, rfl⟩, hc⟩ := hc
  simpa using hc

namespace Task.Legible

variable {t : Task} {ts : List (Shape × Text)}

/-- What the text of a legible task is found to be: the text with white space around it. -/
theorem exists_spaced_text (h : t.Legible ts) {m m' g rest : Text} (hm : ∀ c ∈ m, c = ' ')
    (hm' : ∀ c ∈ m', c = ' ' ∨ c = arrow)
    (heq : ' ' :: rest = m ++ row (present (some t.text)).toList ++ m' ++ g) (hg : arrow ∉ g) :
    ∃ a b, (∀ c ∈ a, c = ' ') ∧ (∀ c ∈ b, c = ' ' ∨ c ∈ g) ∧
      (t.text ≠ [] → m' = [] → b = g) ∧ Text.replace arrow ' ' rest = a ++ t.text ++ b := by
  have hclean : ∀ c ∈ Text.replace arrow ' ' m', c = ' ' := by
    intro c hc
    obtain ⟨d, hd, rfl⟩ := List.mem_map.mp hc
    rcases hm' d hd with rfl | rfl
    · rfl
    · rfl
  have hreplace := congrArg (Text.replace arrow ' ') heq
  have hmr : Text.replace arrow ' ' m = m := replace_of_not_mem fun hmem => by
    cases hm _ hmem
  have happend : ∀ x y, Text.replace arrow ' ' (x ++ y) =
      Text.replace arrow ' ' x ++ Text.replace arrow ' ' y := fun x y => List.map_append
  rw [happend, happend, happend, hmr, replace_of_not_mem hg] at hreplace
  have hcons : Text.replace arrow ' ' (' ' :: rest) = ' ' :: Text.replace arrow ' ' rest := rfl
  rw [hcons] at hreplace
  rcases h.text with htext | htext
  · -- without a text there is white space only
    refine ⟨[], Text.replace arrow ' ' rest, by simp, fun c hc => ?_,
      fun hne => absurd htext hne, by simp [htext]⟩
    have hmem : c ∈ ' ' :: Text.replace arrow ' ' rest := List.mem_cons_of_mem _ hc
    rw [hreplace, htext] at hmem
    simp only [List.mem_append] at hmem
    rcases hmem with ((hmem | hmem) | hmem) | hmem
    · exact .inl (hm c hmem)
    · cases hmem
    · exact .inl (hclean c hmem)
    · exact .inr hmem
  · rw [present_of_ne_nil htext.ne_nil, Option.toList_some, Text.row_cons, Text.row_nil,
      List.append_nil, List.append_assoc, List.append_assoc] at hreplace
    have htr : Text.replace arrow ' ' (' ' :: t.text) = ' ' :: t.text := by
      refine replace_of_not_mem fun hmem => ?_
      rcases List.mem_cons.mp hmem with hmem | hmem
      · cases hmem
      · exact h.noArrow hmem
    rw [htr, List.cons_append, append_space_cons hm] at hreplace
    refine ⟨m, Text.replace arrow ' ' m' ++ g, hm, fun c hc => ?_, fun _ hnil => ?_, ?_⟩
    · rcases List.mem_append.mp hc with hc | hc
      · exact .inl (hclean c hc)
      · exact .inr hc
    · rw [hnil]
      rfl
    · rw [(List.cons.inj hreplace).2, List.append_assoc]

/-- Without its wrappers a legible task is its text, strewn with the tokens. -/
theorem strewn_inner (h : t.Legible ts) {m m' g : Text} (hm : ∀ c ∈ m, c = ' ')
    (hm' : ∀ c ∈ m', c = ' ' ∨ c = arrow) (hglue : Unglued m') (hg : Blank g) :
    Strewn (m ++ row (present (some t.text)).toList ++ m' ++ row t.dates ++ g) ts
      (m ++ row (present (some t.text)).toList ++ m' ++ (row (ts.map fun _ => [' ']) ++ g)) := by
  have hunmarked : Unmarked m' := by
    intro c hc
    rcases hm' c hc with rfl | rfl <;> rfl
  have hback := (DateToken.strewn_row h.spelled hg).append hunmarked
  rw [← h.dates] at hback
  have hdigits : ∀ c ∈ m' ++ (row (ts.map fun _ => [' ']) ++ g), Text.isAsciiDigit c = false := by
    intro c hc
    rw [List.mem_append, List.mem_append] at hc
    rcases hc with hc | hc | hc
    · rcases hm' c hc with rfl | rfl <;> rfl
    · rw [eq_space_of_mem_spaces hc]
      rfl
    · by_contra hdigit
      rw [Bool.not_eq_false] at hdigit
      have := hg c hc
      rw [DateToken.isSpace_of_isAsciiDigit hdigit] at this
      cases this
  have hunglued : Unglued (m' ++ (row t.dates ++ g)) := by
    cases m' with
    | cons c m' => exact DateToken.unglued_cons (hglue c rfl) _
    | nil =>
        cases t.dates with
        | nil => exact DateToken.unglued_of_blank hg
        | cons w ws => exact DateToken.unglued_cons (by decide) _
  have hspaces : Unmarked m := fun c hc => by
    rw [hm c hc]
    rfl
  have hmiddle : Strewn (row (present (some t.text)).toList ++ (m' ++ (row t.dates ++ g))) ts
      (row (present (some t.text)).toList ++ (m' ++ (row (ts.map fun _ => [' ']) ++ g))) := by
    by_cases htext : t.text = []
    · rw [htext]
      exact hback
    · rw [present_of_ne_nil htext, Option.toList_some, Text.row_cons, Text.row_nil,
        List.append_nil, List.cons_append]
      exact .char rfl (.quiet h.quiet hunglued hdigits hback)
  simpa only [List.append_assoc] using hmiddle.append hspaces

/-- The words of a legible task, set behind its head, are read as that task again. White space
may come to stand around the text; behind a text that ends the line it is what ends the line. -/
theorem read?_eq (h : t.Legible ts) {g : Text} (hg : Blank g) (hempty : t.words = [] → g = []) :
    ∃ a b, (∀ c ∈ a, c = ' ') ∧ (∀ c ∈ b, c = ' ' ∨ c ∈ g) ∧
      (t.text ≠ [] → t.back = [] → b = g) ∧
      Task.read? (t.head ++ (join [' '] t.words ++ g)) =
        some { t with text := collapse (a ++ t.text ++ b) } := by
  obtain ⟨g₁, hg₁, hchars₁, hnone, -, hblock⟩ := h.splitBlockId_eq h.reference hg
  obtain ⟨g₂, hchars₂, hinner, hjoin⟩ := space_join_append t.inner g₁
  have hg₂ : Blank g₂ := by
    intro c hc
    rcases hchars₂ c hc with rfl | hc
    · decide
    · exact hg₁ c hc
  obtain ⟨m, m', hm, hm', htags, hglue, hwrappers, hremove⟩ := h.scan_inner h.clear hg₂
  rw [← hjoin, Markup.wrappers_cons_of_ne (c := ' ') (by decide)] at hwrappers
  rw [← hjoin, Markup.removeWrappers_space_cons] at hremove
  -- what is left is the text, strewn with the tokens
  have hstrewn := h.strewn_inner hm hm' hglue hg₂
  rw [← hremove] at hstrewn
  obtain ⟨rest, hrest, hstrewn⟩ := hstrewn.of_cons rfl
  have hgap : ∀ c ∈ row (ts.map fun _ => [' ']) ++ g₂, c = ' ' ∨ c ∈ g := by
    intro c hc
    rcases List.mem_append.mp hc with hc | hc
    · exact .inl (eq_space_of_mem_spaces hc)
    · rcases hchars₂ c hc with hc | hc
      · exact .inl hc
      · exact hchars₁ c hc
  obtain ⟨a, b, ha, hb, hlast, hspaced⟩ := h.exists_spaced_text hm hm' hrest.symm fun hmem => by
    rcases hgap _ hmem with h | h
    · cases h
    · have := hg _ h
      cases this
  refine ⟨a, b, ha, fun c hc => ?_, fun hne hback => ?_, ?_⟩
  · rcases hb c hc with hc | hc
    · exact .inl hc
    · exact hgap c hc
  · -- nothing stands behind the text
    obtain ⟨hnotags, hnodates, hnoblock⟩ := h.back_eq_nil_iff.mp hback
    have hts : ts = [] := by
      rw [h.dates] at hnodates
      exact List.map_eq_nil_iff.mp hnodates
    have hin : t.inner ≠ [] := by
      simp [inner, present_of_ne_nil hne]
    rw [hlast hne (htags hnotags), hts, ← hnone hnoblock, ← hinner hin]
    rfl
  · simp only [Task.read?, Frame.read?, h.splitHead?_eq h.head hempty, Option.map_some, hblock,
      hwrappers, h.ofWrappers_eq, hstrewn.ordered h.inOrder, plainText, hstrewn.remove, hspaced,
      ← h.dates]

end Task.Legible

end TaskLine
