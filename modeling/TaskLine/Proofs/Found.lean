import TaskLine.Proofs.Tokens

/-!
# What the scans find

A scan can find a token that is not spelled: a hidden list may hold anything.
Still it begins with a mark and ends with a date, a tag or the mark
(`Tokenlike`), and white space around a text makes no difference to the tokens
that are found in it (`ordered_blank_blank`) or to what is left when they are
taken out (`remove_blank_blank`).
-/

namespace TaskLine.DateToken

open Text (Blank Firm)

/-! ## How a token begins and ends -/

/-- A text begins with a mark and ends as a token does. -/
structure Tokenlike (t : Text) : Prop where
  exists_mark : ∃ m tail, t = m :: tail ∧ isMark m = true
  ends : (∃ s r, Firm s ∧ SpacedDate r ∧ t = s ++ r) ∨ (∃ s, t = s ++ ['>']) ∨
    t = snoozeMark ∨ t = snoozeAllMark

theorem Tokenlike.firm {t : Text} (h : Tokenlike t) : Firm t := by
  obtain ⟨⟨m, tail, rfl, hm⟩, hends⟩ := h
  have hm := isSpace_of_isMark hm
  rcases hends with ⟨s, r, -, hr, h⟩ | ⟨s, h⟩ | h | h
  · obtain ⟨r, c, rfl, hc⟩ := hr.exists_last
    exact Text.firm_of_cons_eq_concat (t := s ++ r) hm hc (by simpa using h)
  · exact Text.firm_of_cons_eq_concat hm (by decide) h
  · rw [h]
    decide
  · rw [h]
    decide

theorem Tokenlike.collapse {t : Text} (h : Tokenlike t) : Tokenlike (Text.collapse t) := by
  obtain ⟨⟨m, tail, rfl, hm⟩, hends⟩ := h
  refine ⟨⟨m, _, Text.collapse_cons_of_not_space (isSpace_of_isMark hm) tail, hm⟩, ?_⟩
  rcases hends with ⟨s, r, hs, hr, h⟩ | ⟨s, h⟩ | h | h
  · refine .inl ⟨Text.collapse s, Text.collapse r, hs.collapse, hr.collapse, ?_⟩
    rw [h, Text.collapse_append_of_last hs.last]
  · refine .inr (.inl ⟨Text.collapse s, ?_⟩)
    rw [h, Text.collapse_append_cons (by decide)]
    rfl
  · rw [h]
    exact .inr (.inr (.inl rfl))
  · rw [h]
    exact .inr (.inr (.inr rfl))

/-! ## What is accepted begins and ends like a token -/

theorem AcceptsName.tokenlike {tail t : Text} (h : AcceptsName ('💤' :: tail) t) : Tokenlike t := by
  obtain ⟨name, r, -, -, hr, rfl⟩ := h
  have hclose : hiddenClose = "</span".toList ++ ['>'] := rfl
  refine ⟨⟨_, _, rfl, rfl⟩,
    .inl ⟨'💤' :: (tail ++ (hiddenOpen ++ (name ++ hiddenClose))), r, ?_, hr, by simp⟩⟩
  refine Text.firm_of_cons_eq_concat (d := '>')
    (t := '💤' :: (tail ++ (hiddenOpen ++ (name ++ "</span".toList)))) (by decide) (by decide) ?_
  rw [hclose]
  simp only [List.append_assoc, List.cons_append]

theorem AcceptsFolders.tokenlike {tail t : Text} (h : AcceptsFolders ('💤' :: tail) t) :
    Tokenlike t := by
  obtain ⟨list, -, rfl⟩ := h
  have hclose : hiddenClose = "</span".toList ++ ['>'] := rfl
  refine ⟨⟨_, _, rfl, rfl⟩, .inr (.inl ⟨'💤' :: (tail ++
    (folderMark ++ (hiddenOpen ++ '[' :: (list ++ ']' :: "</span".toList)))), ?_⟩)⟩
  rw [hclose]
  simp only [List.append_assoc, List.cons_append]

/-- What a shape accepts begins and ends as a token does. -/
theorem Shape.Accepts.tokenlike {sh : Shape} {t : Text} (h : sh.Accepts t) : Tokenlike t := by
  cases sh with
  | dated =>
      obtain ⟨m, r, hm, hr, rfl⟩ := h
      have hm : isMark m = true := by simp [isMark, hm]
      exact ⟨⟨m, r, rfl, hm⟩, .inl ⟨[m], r,
        Text.firm_of_cons_eq_concat (t := []) (isSpace_of_isMark hm) (isSpace_of_isMark hm) rfl,
        hr, rfl⟩⟩
  | snoozeName | snoozeAllName => exact AcceptsName.tokenlike h
  | snoozeFolders | snoozeAllFolders => exact AcceptsFolders.tokenlike h
  | snooze =>
      obtain rfl := h
      exact ⟨⟨_, _, rfl, rfl⟩, .inr (.inr (.inl rfl))⟩
  | snoozeAll =>
      obtain rfl := h
      exact ⟨⟨_, _, rfl, rfl⟩, .inr (.inr (.inr rfl))⟩

theorem Shape.Spelled.tokenlike {sh : Shape} {t : Text} (h : sh.Spelled t) : Tokenlike t :=
  h.accepts.tokenlike

theorem Shape.tokenlike_of_mem_found {sh : Shape} {s t : Text}
    (h : t ∈ Chunk.found (sh.chunks s)) : Tokenlike t := by
  induction s using sh.scan_induction with
  | nil => cases h
  | char c s hnone ih =>
      rw [Shape.chunks_cons_of_none hnone, Chunk.found_cons] at h
      exact ih h
  | token v u hacc hafter ih =>
      rw [Shape.chunks_append_of_some hacc.tokenlike.firm.ne_nil hafter, Chunk.found_cons,
        List.mem_append] at h
      rcases h with h | h
      · rw [List.mem_singleton.mp h]
        exact hacc.tokenlike
      · exact ih h

theorem tokenlike_of_mem_ordered {s t : Text} (h : t ∈ ordered s) : Tokenlike t := by
  rw [ordered_eq_map] at h
  obtain ⟨x, hx, rfl⟩ := List.mem_map.mp h
  obtain ⟨sh, -, hsh⟩ := List.mem_flatMap.mp (mem_sortBy.mp hx)
  obtain ⟨t, ht, rfl⟩ := List.mem_map.mp hsh
  exact Shape.tokenlike_of_mem_found ht

/-! ## White space around a text -/

section Blank

variable {g : Text}

theorem unglued_append_blank_iff (hg : Blank g) (u : Text) : Unglued (u ++ g) ↔ Unglued u := by
  cases u with
  | nil => exact iff_of_true (unglued_of_blank hg) unglued_nil
  | cons c u => rfl

/-- White space behind a text has no part in a token of it. -/
theorem Shape.after?_append_blank (hg : Blank g) (sh : Shape) (s : Text) :
    sh.after? (s ++ g) = (sh.after? s).map (· ++ g) := by
  cases hs : sh.after? s with
  | some u =>
      obtain ⟨t, rfl, hacc, hbare⟩ := Shape.after?_eq_some_iff.mp hs
      exact Shape.after?_eq_some_iff.mpr ⟨t, List.append_assoc .., hacc,
        fun hb => (unglued_append_blank_iff hg u).mpr (hbare hb)⟩
  | none =>
      rw [Option.map_none, Option.eq_none_iff_forall_ne_some]
      intro v hv
      obtain ⟨t, ht, hacc, hbare⟩ := Shape.after?_eq_some_iff.mp hv
      -- a token does not end in white space, so it stands in the text whole
      obtain ⟨u, rfl, rfl⟩ : ∃ u, s = t ++ u ∧ v = u ++ g := by
        rcases List.append_eq_append_iff.mp ht with ⟨x, rfl, rfl⟩ | h
        · cases x using List.reverseRecOn with
          | nil => exact ⟨[], by simp⟩
          | append_singleton x c =>
              have hspace := hg c (by simp)
              rw [hacc.tokenlike.firm.last c (by simp)] at hspace
              cases hspace
        · exact h
      have hread := Shape.after?_eq_some_iff.mpr ⟨t, rfl, hacc,
        fun hb => (unglued_append_blank_iff hg u).mp (hbare hb)⟩
      rw [hs] at hread
      cases hread

theorem Shape.chunks_append_blank (hg : Blank g) (sh : Shape) (s : Text) :
    sh.chunks (s ++ g) = sh.chunks s ++ g.map fun c => ⟨false, [c]⟩ := by
  induction s using sh.scan_induction with
  | nil =>
      have h := Shape.chunks_unmarked (unmarked_of_blank hg) sh []
      rw [List.append_nil] at h
      rw [List.nil_append, h]
      exact List.append_nil _
  | char c s hnone ih =>
      have hafter := Shape.after?_append_blank hg sh (c :: s)
      rw [hnone, List.cons_append] at hafter
      rw [List.cons_append, Shape.chunks_cons_of_none hafter, Shape.chunks_cons_of_none hnone, ih]
      rfl
  | token t u hacc hsome ih =>
      have hne := hacc.tokenlike.firm.ne_nil
      have hafter := Shape.after?_append_blank hg sh (t ++ u)
      rw [hsome, Option.map_some, List.append_assoc] at hafter
      rw [List.append_assoc, Shape.chunks_append_of_some hne hafter,
        Shape.chunks_append_of_some hne hsome, ih]
      rfl

variable {g' : Text}

theorem Shape.chunks_blank_blank (hg : Blank g) (hg' : Blank g') (sh : Shape) (s : Text) :
    sh.chunks (g ++ s ++ g') = (g.map fun c => ⟨false, [c]⟩) ++ sh.chunks s ++
      g'.map fun c => ⟨false, [c]⟩ := by
  rw [List.append_assoc, Shape.chunks_unmarked (unmarked_of_blank hg),
    Shape.chunks_append_blank hg', List.append_assoc]

/-- No token is found in the white space around a text. -/
theorem ordered_blank_blank (hg : Blank g) (hg' : Blank g') (s : Text) :
    ordered (g ++ s ++ g') = ordered s := by
  have hfound : ∀ sh : Shape,
      Chunk.found (sh.chunks (g ++ s ++ g')) = Chunk.found (sh.chunks s) := by
    intro sh
    rw [Shape.chunks_blank_blank hg hg', Chunk.found_append, Chunk.found_append, found_characters,
      found_characters, List.nil_append, List.append_nil]
  simp only [ordered, found, Shape.tokens, hfound]

/-- The white space around a text stays when the tokens are taken out. -/
theorem remove_blank_blank (hg : Blank g) (hg' : Blank g') (s : Text) :
    remove (g ++ s ++ g') = g ++ remove s ++ g' := by
  have hfold : ∀ (shs : List Shape) (s : Text),
      shs.foldl (fun t sh => Chunk.cleared (sh.chunks t)) (g ++ s ++ g') =
        g ++ shs.foldl (fun t sh => Chunk.cleared (sh.chunks t)) s ++ g' := by
    intro shs
    induction shs with
    | nil => exact fun _ => rfl
    | cons sh shs ih =>
        intro s
        rw [List.foldl_cons, List.foldl_cons, Shape.chunks_blank_blank hg hg', Chunk.cleared_append,
          Chunk.cleared_append, cleared_characters, cleared_characters, ih]
  exact hfold Shape.all s

end Blank

end TaskLine.DateToken
