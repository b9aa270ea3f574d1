import TaskLine.Proofs.Interleaving

/-!
# A text without its wrappers

Wrappers are taken out of a text in two ways: one space is put in the place of each, or spaces are
written over it. Either way the texts between them stay as they are (`Chunk.filled_eq_interleaved`),
and the scanner finds no wrapper in what is left (`wrappers_filled`): the places where it stopped in
the texts between are where it stops again, since a tag that is still open at the end of one of them
would have run over the wrapper behind.
-/

namespace TaskLine

namespace Chunk

/-! ## Marked chunks in the order of the text -/

/-- The text with something else in the place of each marked chunk. -/
def filled (fill : Text → Text) (ks : List Chunk) : Text :=
  ks.flatMap fun k => if k.marked then fill k.text else k.text

variable {fill : Text → Text}

theorem filled_cons (k : Chunk) (ks : List Chunk) :
    filled fill (k :: ks) = (if k.marked then fill k.text else k.text) ++ filled fill ks := rfl

theorem blanked_eq_filled (ks : List Chunk) :
    blanked ks = filled (fun w => Text.spaces w.length) ks := rfl

theorem joined_eq_filled (ks : List Chunk) : joined ks = filled id ks :=
  List.flatMap_congr fun k _ => (ite_self k.text).symm

/-- The text in front of the first marked chunk, and each marked chunk with the text behind it. -/
def parted : List Chunk → Text × List (Text × Text)
  | [] => ([], [])
  | k :: ks =>
    if k.marked then ([], (k.text, (parted ks).1) :: (parted ks).2)
    else (k.text ++ (parted ks).1, (parted ks).2)

theorem found_eq_map_parted (ks : List Chunk) : found ks = (parted ks).2.map Prod.fst := by
  induction ks with
  | nil => rfl
  | cons k ks ih =>
      rw [found_cons, ih, parted]
      cases k.marked <;> rfl

theorem filled_eq_interleaved (fill : Text → Text) (ks : List Chunk) :
    filled fill ks =
      Markup.interleaved (parted ks).1 ((parted ks).2.map fun p => (fill p.1, p.2)) := by
  induction ks with
  | nil => rfl
  | cons k ks ih =>
      rw [filled_cons, ih, parted]
      cases k.marked <;> simp [Markup.interleaved]

theorem joined_cons (k : Chunk) (ks : List Chunk) : joined (k :: ks) = k.text ++ joined ks := rfl

/-- Nothing is lost: the characters are in the chunks that were found and in what is left. -/
theorem countP_joined (p : Char → Bool) (fill : Text → Text)
    (hfill : ∀ t, (fill t).countP p = 0) (ks : List Chunk) :
    (joined ks).countP p = (filled fill ks).countP p + (found ks).flatten.countP p := by
  induction ks with
  | nil => rfl
  | cons k ks ih =>
      rw [joined_cons, filled_cons, found_cons, List.flatten_append, List.countP_append,
        List.countP_append, List.countP_append, ih]
      cases k.marked with
      | true => simp [hfill]; omega
      | false => simp; omega

theorem filled_of_found_eq_nil {ks : List Chunk} (h : found ks = []) :
    filled fill ks = joined ks := by
  induction ks with
  | nil => rfl
  | cons k ks ih =>
      rw [found_cons, List.append_eq_nil_iff] at h
      rw [filled_cons, joined_cons, ih h.2]
      split at h
      · cases h.1
      · rw [if_neg ‹_›]

/-! ## Marked chunks by their offsets -/


/-- What was found is what stands in the text between the offsets. -/
theorem map_slice_ranges (before : Text) (ks : List Chunk) :
    (ranges before.length ks).map (fun r => Text.slice r.1 r.2 (before ++ joined ks)) =
      found ks := by
  induction ks generalizing before with
  | nil => rfl
  | cons k ks ih =>
      have ih := ih (before ++ k.text)
      rw [List.length_append, List.append_assoc] at ih
      rw [found_cons, joined_cons, ranges]
      cases k.marked with
      | false => exact ih
      | true =>
          have hslice : Text.slice before.length (before.length + k.text.length)
              (before ++ (k.text ++ joined ks)) = k.text := by
            rw [Text.slice, List.take_length_add_append, List.take_left, List.drop_left]
          rw [if_pos rfl, List.map_cons, hslice, ih]
          rfl

/-- The text with spaces between two offsets. -/
def overwrite (s : Text) (r : Nat × Nat) : Text :=
  s.take r.1 ++ Text.spaces (r.2 - r.1) ++ s.drop r.2

/-- Marked chunks can be overwritten in place, one after the other. -/
theorem foldl_overwrite (before : Text) (ks : List Chunk) :
    (ranges before.length ks).foldl overwrite (before ++ joined ks) = before ++ blanked ks := by
  induction ks generalizing before with
  | nil => rfl
  | cons k ks ih =>
      rw [blanked_eq_filled, filled_cons, ← blanked_eq_filled, joined_cons, ranges]
      cases k.marked with
      | false =>
          have ih := ih (before ++ k.text)
          rw [List.length_append, List.append_assoc, List.append_assoc] at ih
          exact ih
      | true =>
          have hspaces : (Text.spaces k.text.length).length = k.text.length :=
            List.length_replicate
          have hover : overwrite (before ++ (k.text ++ joined ks))
              (before.length, before.length + k.text.length) =
                before ++ Text.spaces k.text.length ++ joined ks := by
            rw [overwrite, List.take_left, Nat.add_sub_cancel_left, List.drop_length_add_append,
              List.drop_left]
          have ih := ih (before ++ Text.spaces k.text.length)
          rw [List.length_append, hspaces, List.append_assoc before _ (blanked ks)] at ih
          rw [if_pos rfl, List.foldl_cons, hover, ih]
          rfl

end Chunk

namespace Markup

/-! ## No wrapper is left -/

/-- Where the wrappers were there are none any more, whatever was put there, unless it has a `<`
in it. -/
theorem wrappers_filled (fill : Text → Text) (hfill : ∀ w, '<' ∉ fill w) (s : Text) :
    wrappers (Chunk.filled fill (chunks s)) = [] := by
  match s with
  | [] => rfl
  | c :: cs =>
      have ih := wrappers_filled fill hfill (cs.drop (readWrapper c cs).2)
      rw [chunks_cons, Chunk.filled_cons]
      cases hread : (readWrapper c cs).1 with
      | true =>
          rw [if_pos rfl, (Passes.of_not_mem (hfill _)).reads.wrappers, ih]
          rfl
      | false =>
          rw [if_neg Bool.false_ne_true]
          by_cases hc : c = '<'
          · subst hc
            rcases wholeTag_of_readWrapper hread with hlen | ⟨htag, hkey⟩
            · -- a tag that takes the rest of the text is left as it is
              rw [hlen, List.take_length, List.drop_length, chunks_nil]
              have hnone : wrappers ('<' :: cs) = [] := by
                rw [wrappers_cons, hread, hlen, List.drop_length]
                rfl
              rw [Chunk.filled, List.flatMap_nil, List.append_nil, hnone]
            · have htags := (Passes.tag htag hkey .nil).reads.wrappers
              rw [List.append_nil] at htags
              rw [htags, ih]
              rfl
          · have hone : readWrapper c cs = (false, 0) := by simp [readWrapper, hc]
            rw [hone] at ih ⊢
            rw [List.take_zero, List.singleton_append, wrappers_cons_of_ne hc]
            exact ih
termination_by s.length
decreasing_by rw [List.length_drop, List.length_cons]; omega

/-- Where there are no wrappers, none are taken out. -/
theorem removeWrappers_of_wrappers_eq_nil {s : Text} (h : wrappers s = []) :
    removeWrappers s = s := by
  have hfilled : Chunk.filled (fun _ => [' ']) (chunks s) = Chunk.joined (chunks s) :=
    Chunk.filled_of_found_eq_nil h
  exact hfilled.trans (joined_chunks s)

theorem wrappers_removeWrappers (s : Text) : wrappers (removeWrappers s) = [] :=
  wrappers_filled (fun _ => [' ']) (fun _ => by decide) s

theorem wrappers_blankWrappers (s : Text) : wrappers (blankWrappers s) = [] := by
  refine wrappers_filled (fun w => Text.spaces w.length) (fun w hlt => ?_) s
  cases List.eq_of_mem_replicate hlt

/-- Taking wrappers out and overwriting them loses nothing of the texts between them and leaves no
wrapper. -/
theorem wrappers_taken_out (s : Text) :
    (∃ t pairs, wrappers s = pairs.map Prod.fst ∧ s = interleaved t pairs ∧
      removeWrappers s = interleaved t (pairs.map fun p => ([' '], p.2)) ∧
      blankWrappers s = interleaved t (pairs.map fun p => (Text.spaces p.1.length, p.2))) ∧
    wrappers s = (wrapperRanges s).map (fun r => Text.slice r.1 r.2 s) ∧
    blankWrappers s = (wrapperRanges s).foldl Chunk.overwrite s ∧
    (blankWrappers s).length = s.length ∧
    wrappers (removeWrappers s) = [] ∧ wrappers (blankWrappers s) = [] := by
  have hjoined := joined_chunks s
  refine ⟨⟨(Chunk.parted (chunks s)).1, (Chunk.parted (chunks s)).2,
    Chunk.found_eq_map_parted _, ?_, Chunk.filled_eq_interleaved (fun _ => [' ']) _,
    Chunk.filled_eq_interleaved (fun w => Text.spaces w.length) _⟩, ?_, ?_, ?_,
    wrappers_removeWrappers s, wrappers_blankWrappers s⟩
  · have hself := Chunk.filled_eq_interleaved id (chunks s)
    rw [← Chunk.joined_eq_filled, hjoined] at hself
    simpa using hself
  · have hslices := Chunk.map_slice_ranges [] (chunks s)
    rw [List.nil_append, hjoined] at hslices
    exact hslices.symm
  · have hover := Chunk.foldl_overwrite [] (chunks s)
    rw [List.nil_append, List.nil_append, hjoined] at hover
    exact hover.symm
  · rw [blankWrappers, Chunk.length_blanked, hjoined]

end Markup

end TaskLine
