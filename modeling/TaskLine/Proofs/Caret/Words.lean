import TaskLine.Caret
import TaskLine.Proofs.Clearing
import TaskLine.Proofs.Tokens

/-!
# Words of the user's text

The words that a caret can follow are read off a copy of the line in which wrappers, date tokens and
arrows are written over with spaces. The copy has all characters in their places (`Masked`), so a
word stands in the line itself at its offsets (`in_of_mem_words`), and words come one behind the
other (`pairwise_words`).
-/

namespace TaskLine.Caret

open Text (isSpace slice)

variable {s t u : Text} {w : Word}

/-! ## Texts written over with spaces -/

/-- The second text is the first with spaces in place of some of its characters. -/
def Masked (s t : Text) : Prop := List.Forall₂ (fun c d => d = c ∨ d = ' ') s t

namespace Masked

theorem refl (s : Text) : Masked s s := List.forall₂_same.mpr fun _ _ => .inl rfl

theorem trans (h : Masked s t) (h' : Masked t u) : Masked s u := by
  induction h generalizing u with
  | nil => exact h'
  | cons hc _ ih =>
      cases h' with
      | cons hd h' =>
          refine .cons ?_ (ih h')
          rcases hd with rfl | rfl
          · exact hc
          · exact .inr rfl

theorem append {s' t' : Text} (h : Masked s t) (h' : Masked s' t') :
    Masked (s ++ s') (t ++ t') := by
  induction h with
  | nil => exact h'
  | cons hc _ ih => exact .cons hc ih

/-- What has no space in it was not written over. -/
theorem eq_of_not_mem (h : Masked s t) (ht : ' ' ∉ t) : s = t := by
  induction h with
  | nil => rfl
  | cons hc _ ih =>
      rw [List.mem_cons, not_or] at ht
      rw [hc.resolve_right (Ne.symm ht.1), ih ht.2]

theorem slice_eq (h : Masked s t) (i j : Nat) (hspace : ' ' ∉ slice i j t) :
    slice i j s = slice i j t :=
  eq_of_not_mem (List.forall₂_drop i (List.forall₂_take j h)) hspace

end Masked

theorem masked_spaces (s : Text) : Masked s (Text.spaces s.length) := by
  induction s with
  | nil => exact .nil
  | cons c s ih => exact .cons (.inr rfl) ih

theorem masked_blanked (ks : List Chunk) : Masked (Chunk.joined ks) (Chunk.blanked ks) := by
  induction ks with
  | nil => exact .nil
  | cons k ks ih =>
      rw [Chunk.joined_cons, Chunk.blanked_eq_filled, Chunk.filled_cons]
      split
      · exact (masked_spaces k.text).append ih
      · exact (Masked.refl k.text).append ih

theorem masked_blankWrappers (s : Text) : Masked s (Markup.blankWrappers s) := by
  have h := masked_blanked (Markup.chunks s)
  rwa [Markup.joined_chunks] at h

theorem masked_blank (s : Text) : Masked s (DateToken.blank s) := by
  have hpasses : ∀ (shapes : List DateToken.Shape) (s : Text),
      Masked s (shapes.foldl (fun t shape => Chunk.blanked (shape.chunks t)) s) := by
    intro shapes
    induction shapes with
    | nil => exact Masked.refl
    | cons shape shapes ih =>
        intro s
        have h := masked_blanked (shape.chunks s)
        rw [shape.joined_chunks] at h
        exact h.trans (ih _)
  exact hpasses DateToken.Shape.all s

theorem masked_replace (a : Char) (s : Text) : Masked s (Text.replace a ' ' s) := by
  induction s with
  | nil => exact .nil
  | cons c s ih =>
      by_cases hc : c = a
      · exact .cons (.inr (if_pos hc)) ih
      · exact .cons (.inl (if_neg hc)) ih

theorem masked_userText (line : Text) : Masked line (userText line) :=
  (masked_blankWrappers line).trans ((masked_blank _).trans (masked_replace _ _))

/-! ## Words where they stand -/

/-- The word stands in the text at its offsets. -/
structure Word.In (s : Text) (w : Word) : Prop where
  stop_eq : w.stop = w.start + w.text.length
  long : 2 ≤ w.text.length
  solid : ∀ c ∈ w.text, isSpace c = false
  slice_eq : slice w.start w.stop s = w.text

theorem Word.In.space_not_mem (h : w.In s) : ' ' ∉ w.text := fun hspace => by
  cases h.solid ' ' hspace

theorem Word.In.eq_append (h : w.In s) :
    ∃ a b, s = a ++ (w.text ++ b) ∧ a.length = w.start := by
  have hlen := congrArg List.length h.slice_eq
  have hstop := h.stop_eq
  have hlong := h.long
  rw [slice, List.length_drop, List.length_take] at hlen
  refine ⟨s.take w.start, s.drop w.stop, ?_, by rw [List.length_take]; omega⟩
  have hfront : (s.take w.stop).take w.start = s.take w.start := by
    rw [List.take_take, Nat.min_eq_left (by omega)]
  rw [← List.append_assoc, ← h.slice_eq, slice, ← hfront, List.take_append_drop,
    List.take_append_drop]

/-- A word that stands in a text does so before spaces were written over parts of it. -/
theorem Word.In.before (h : w.In t) (hst : Masked s t) : w.In s where
  stop_eq := h.stop_eq
  long := h.long
  solid := h.solid
  slice_eq := by
    have hspace : ' ' ∉ slice w.start w.stop t := by
      rw [h.slice_eq]
      exact h.space_not_mem
    rw [hst.slice_eq _ _ hspace, h.slice_eq]

theorem mem_landmark {text : Text} {start : Nat} :
    w ∈ landmark text start ↔ w = ⟨text, start, start + text.length⟩ ∧ 2 ≤ text.length := by
  rw [landmark]
  split
  · exact iff_of_false List.not_mem_nil fun h => absurd h.2 (Nat.not_le.mpr ‹_›)
  · rw [List.mem_singleton]
    exact (and_iff_left (Nat.le_of_not_lt ‹_›)).symm

theorem in_of_mem_landmark {front word : Text} {pos : Nat}
    (hpos : pos = front.length + word.length) (hword : ∀ c ∈ word, isSpace c = false)
    (h : w ∈ landmark word.reverse (pos - word.length)) (rest : Text) :
    w.In (front ++ (word.reverse ++ rest)) := by
  rw [hpos, Nat.add_sub_cancel] at h
  obtain ⟨rfl, hlong⟩ := mem_landmark.mp h
  refine ⟨rfl, hlong, fun c hc => hword c (List.mem_reverse.mp hc), ?_⟩
  rw [slice, List.take_length_add_append, List.take_left, List.drop_left]

/-- A word that has begun ends at the next white space or with the text. -/
theorem in_of_mem_wordsFrom {front word : Text} {pos : Nat}
    (hpos : pos = front.length + word.length) (hword : ∀ c ∈ word, isSpace c = false)
    (h : w ∈ wordsFrom pos word s) : w.In (front ++ (word.reverse ++ s)) := by
  induction s generalizing front word pos with
  | nil => exact in_of_mem_landmark hpos hword h []
  | cons c s ih =>
      rw [wordsFrom] at h
      split at h
      · rcases List.mem_append.mp h with h | h
        · exact in_of_mem_landmark hpos hword h (c :: s)
        · have hnext : pos + 1 = (front ++ (word.reverse ++ [c])).length + ([] : Text).length := by
            simp only [List.length_append, List.length_reverse, List.length_singleton,
              List.length_nil]
            omega
          simpa using ih hnext (List.forall_mem_nil _) h
      · have hnext : pos + 1 = front.length + (c :: word).length := by
          rw [hpos, List.length_cons, Nat.add_assoc]
        simpa using ih hnext (List.forall_mem_cons.mpr ⟨Bool.eq_false_iff.mpr ‹_›, hword⟩) h

theorem in_userText_of_mem_words {line : Text} (h : w ∈ words line) : w.In (userText line) := by
  rw [words] at h
  have hin : w.In ([] ++ (([] : Text).reverse ++ userText line)) :=
    in_of_mem_wordsFrom rfl (List.forall_mem_nil _) h
  rwa [List.reverse_nil, List.nil_append, List.nil_append] at hin

/-- Every word stands in the line. -/
theorem in_of_mem_words {line : Text} (h : w ∈ words line) : w.In line :=
  (in_userText_of_mem_words h).before (masked_userText line)

/-! ## Words one behind the other -/

theorem le_start_of_mem_wordsFrom {pos : Nat} {word : Text} (h : w ∈ wordsFrom pos word s) :
    pos - word.length ≤ w.start := by
  induction s generalizing pos word with
  | nil =>
      obtain ⟨rfl, -⟩ := mem_landmark.mp h
      exact le_rfl
  | cons c s ih =>
      rw [wordsFrom] at h
      split at h
      · rcases List.mem_append.mp h with h | h
        · obtain ⟨rfl, -⟩ := mem_landmark.mp h
          exact le_rfl
        · have hstart := ih h
          rw [List.length_nil] at hstart
          omega
      · have hstart := ih h
        rw [List.length_cons] at hstart
        omega

theorem pairwise_landmark (text : Text) (start : Nat) :
    (landmark text start).Pairwise fun v w => v.stop < w.start := by
  rw [landmark]
  split
  · exact .nil
  · exact List.pairwise_singleton _ _

theorem pairwise_wordsFrom {pos : Nat} {word : Text} (hpos : word.length ≤ pos) (s : Text) :
    (wordsFrom pos word s).Pairwise fun v w => v.stop < w.start := by
  induction s generalizing pos word with
  | nil => exact pairwise_landmark _ _
  | cons c s ih =>
      rw [wordsFrom]
      split
      · refine List.pairwise_append.mpr ⟨pairwise_landmark _ _, ih (Nat.zero_le _), ?_⟩
        intro v hv w hw
        obtain ⟨rfl, -⟩ := mem_landmark.mp hv
        have hstart := le_start_of_mem_wordsFrom hw
        rw [List.length_nil] at hstart
        simp only [List.length_reverse]
        omega
      · exact ih (Nat.succ_le_succ hpos)

/-- Each word begins behind the one before it. -/
theorem pairwise_words (line : Text) : (words line).Pairwise fun v w => v.stop < w.start := by
  rw [words]
  exact pairwise_wordsFrom (Nat.zero_le _) _

theorem pairwise_stop_words (line : Text) :
    (words line).Pairwise fun v w => v.stop < w.stop := by
  refine (pairwise_words line).imp_of_mem fun _ hw hlt => ?_
  have hstop := (in_of_mem_words hw).stop_eq
  omega

end TaskLine.Caret
