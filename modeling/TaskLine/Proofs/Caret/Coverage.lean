import TaskLine.Proofs.Caret.Words
import TaskLine.Proofs.Ranges

/-!
# Which characters of a line are in words

A line is written over in three ways before its words are read off: over the ranges of its wrappers,
then shape by shape over the ranges of date tokens, and over arrows. A character that is not white
space is still seen afterwards exactly if it is in none of these ranges and no arrow
(`shows_userText`). It is in a word exactly if one of its neighbours is seen as well
(`spanned_words_iff`). So for each character of a line it can be said why it is in no word
(`words_cover`).
-/

namespace TaskLine

open Text (isSpace slice)

/-- An offset lies in one of some ranges. -/
def Spanned (rs : List (Nat × Nat)) (i : Nat) : Prop := ∃ r ∈ rs, r.1 ≤ i ∧ i < r.2

theorem spanned_cons {r : Nat × Nat} {rs : List (Nat × Nat)} {i : Nat} :
    Spanned (r :: rs) i ↔ (r.1 ≤ i ∧ i < r.2) ∨ Spanned rs i := by
  simp only [Spanned, List.mem_cons, or_and_right, exists_or, exists_eq_left]

/-- A character that is no white space stands at an offset. -/
def Shows (s : Text) (i : Nat) (c : Char) : Prop := s[i]? = some c ∧ isSpace c = false

/-- Whether a character that is no white space stands at an offset. -/
def SolidAt (s : Text) (i : Nat) : Prop := ∃ c, Shows s i c

/-! ## What is written over -/

namespace Chunk

variable {r : Nat × Nat} {rs : List (Nat × Nat)} {s : Text} {i : Nat} {c : Char}

theorem mem_ranges {pos : Nat} {ks : List Chunk} (h : r ∈ ranges pos ks) :
    pos ≤ r.1 ∧ r.1 ≤ r.2 ∧ r.2 ≤ pos + (joined ks).length := by
  induction ks generalizing pos with
  | nil => cases h
  | cons k ks ih =>
      rw [joined_cons, List.length_append]
      have htail : r ∈ ranges (pos + k.text.length) ks →
          pos ≤ r.1 ∧ r.1 ≤ r.2 ∧ r.2 ≤ pos + (k.text.length + (joined ks).length) := by
        intro h
        have := ih h
        omega
      rw [ranges] at h
      split at h
      · rcases List.mem_cons.mp h with rfl | h
        · exact ⟨Nat.le_refl _, Nat.le_add_right .., by simp only; omega⟩
        · exact htail h
      · exact htail h

theorem length_overwrite (h : r.1 ≤ r.2 ∧ r.2 ≤ s.length) : (overwrite s r).length = s.length := by
  rw [overwrite, List.length_append, List.length_append, List.length_take, Text.spaces,
    List.length_replicate, List.length_drop]
  omega

theorem getElem?_overwrite (h : r.1 ≤ r.2 ∧ r.2 ≤ s.length) (i : Nat) :
    (overwrite s r)[i]? = if r.1 ≤ i ∧ i < r.2 then some ' ' else s[i]? := by
  have htake : (s.take r.1).length = r.1 := List.length_take_of_le (Nat.le_trans h.1 h.2)
  have hfront : (s.take r.1 ++ Text.spaces (r.2 - r.1)).length = r.2 := by
    rw [List.length_append, htake, Text.spaces, List.length_replicate]
    exact Nat.add_sub_cancel' h.1
  rw [overwrite]
  rcases Nat.lt_or_ge i r.1 with hlt | hge
  · rw [if_neg (by omega), List.getElem?_append_left (by omega),
      List.getElem?_append_left (by omega), List.getElem?_take_of_lt hlt]
  · rcases Nat.lt_or_ge i r.2 with hlt' | hge'
    · rw [if_pos ⟨hge, hlt'⟩, List.getElem?_append_left (by omega),
        List.getElem?_append_right (by omega), htake, Text.spaces,
        List.getElem?_replicate_of_lt (by omega)]
    · rw [if_neg (by omega), List.getElem?_append_right (by omega), hfront, List.getElem?_drop,
        Nat.add_sub_cancel' hge']

theorem shows_overwrite (h : r.1 ≤ r.2 ∧ r.2 ≤ s.length) :
    Shows (overwrite s r) i c ↔ Shows s i c ∧ ¬(r.1 ≤ i ∧ i < r.2) := by
  rw [Shows, getElem?_overwrite h]
  split
  next hin =>
    refine iff_of_false (fun hshows => ?_) fun hshows => hshows.2 hin
    obtain rfl := Option.some.inj hshows.1
    cases hshows.2
  next hout => exact (and_iff_left hout).symm

theorem shows_foldl_overwrite (h : ∀ r ∈ rs, r.1 ≤ r.2 ∧ r.2 ≤ s.length) :
    Shows (rs.foldl overwrite s) i c ↔ Shows s i c ∧ ¬Spanned rs i := by
  induction rs generalizing s with
  | nil => exact (and_iff_left fun ⟨_, hr, _⟩ => nomatch hr).symm
  | cons r rs ih =>
      obtain ⟨hr, hrs⟩ := List.forall_mem_cons.mp h
      rw [List.foldl_cons, ih (by rwa [length_overwrite hr]), shows_overwrite hr, spanned_cons,
        not_or, and_assoc]

/-- Marked chunks are written over in place, one after the other. -/
theorem foldl_overwrite_ranges (ks : List Chunk) :
    (ranges 0 ks).foldl overwrite (joined ks) = blanked ks :=
  foldl_overwrite [] ks

theorem shows_blanked (ks : List Chunk) :
    Shows (blanked ks) i c ↔ Shows (joined ks) i c ∧ ¬Spanned (ranges 0 ks) i := by
  rw [← foldl_overwrite_ranges]
  refine shows_foldl_overwrite fun r hr => ?_
  have := mem_ranges hr
  omega

end Chunk

namespace DateToken

/-- Where tokens are written over, shape by shape: each shape is looked for in what the shapes
before have left. -/
def blankedRanges : List Shape → Text → List (Nat × Nat)
  | [], _ => []
  | sh :: shs, s =>
    Chunk.ranges 0 (sh.chunks s) ++ blankedRanges shs (Chunk.blanked (sh.chunks s))

theorem mem_blankedRanges {r : Nat × Nat} {shs : List Shape} {s : Text}
    (h : r ∈ blankedRanges shs s) : r.1 ≤ r.2 ∧ r.2 ≤ s.length := by
  induction shs generalizing s with
  | nil => cases h
  | cons sh shs ih =>
      rcases List.mem_append.mp h with h | h
      · have hbounds := Chunk.mem_ranges h
        rw [sh.joined_chunks] at hbounds
        omega
      · have hbounds := ih h
        rwa [Chunk.length_blanked, sh.joined_chunks] at hbounds

/-- Tokens are written over in place, one range after the other. -/
theorem foldl_overwrite_blankedRanges (shs : List Shape) (s : Text) :
    (blankedRanges shs s).foldl Chunk.overwrite s =
      shs.foldl (fun t sh => Chunk.blanked (sh.chunks t)) s := by
  induction shs generalizing s with
  | nil => rfl
  | cons sh shs ih =>
      have hfirst := Chunk.foldl_overwrite_ranges (sh.chunks s)
      rw [sh.joined_chunks] at hfirst
      rw [blankedRanges, List.foldl_append, hfirst, ih, List.foldl_cons]

theorem shows_blank {s : Text} {i : Nat} {c : Char} :
    Shows (blank s) i c ↔ Shows s i c ∧ ¬Spanned (blankedRanges Shape.all s) i := by
  rw [blank, ← foldl_overwrite_blankedRanges]
  exact Chunk.shows_foldl_overwrite fun r hr => mem_blankedRanges hr

end DateToken

theorem shows_replace {a : Char} {s : Text} {i : Nat} {c : Char} :
    Shows (Text.replace a ' ' s) i c ↔ Shows s i c ∧ c ≠ a := by
  rw [Shows, Text.replace, List.getElem?_map, Option.map_eq_some_iff]
  constructor
  · rintro ⟨⟨d, hd, hc⟩, hspace⟩
    split at hc
    · rw [← hc] at hspace
      cases hspace
    next hne =>
      subst hc
      exact ⟨⟨hd, hspace⟩, hne⟩
  · rintro ⟨⟨hc, hspace⟩, hne⟩
    exact ⟨⟨c, hc, if_neg hne⟩, hspace⟩

namespace Caret

/-- The ranges of a line in which date tokens are written over. -/
def dateRanges (line : Text) : List (Nat × Nat) :=
  DateToken.blankedRanges DateToken.Shape.all (Markup.blankWrappers line)

/-- What is seen of a line when its words are read off. -/
theorem shows_userText {line : Text} {i : Nat} {c : Char} :
    Shows (userText line) i c ↔
      Shows line i c ∧ ¬Spanned (Markup.wrapperRanges line) i ∧ ¬Spanned (dateRanges line) i ∧
        c ≠ DateToken.arrow := by
  rw [userText, shows_replace, DateToken.shows_blank, Markup.blankWrappers, Chunk.shows_blanked,
    Markup.joined_chunks, and_assoc, and_assoc]
  rfl

/-! ## What is in words -/

variable {s : Text} {i : Nat} {w : Word}

/-- Where words stand. -/
def ranges (ws : List Word) : List (Nat × Nat) := ws.map fun w => (w.start, w.stop)

theorem spanned_ranges {ws : List Word} :
    Spanned (ranges ws) i ↔ ∃ w ∈ ws, w.start ≤ i ∧ i < w.stop := by
  simp only [Spanned, ranges, List.mem_map, exists_exists_and_eq_and]

theorem Word.In.solidAt (h : w.In s) (hstart : w.start ≤ i) (hstop : i < w.stop) :
    SolidAt s i := by
  have hlen : i - w.start < w.text.length := by
    have := h.stop_eq
    omega
  have hget : w.text[i - w.start]? = s[i]? := by
    rw [← h.slice_eq, slice, List.getElem?_drop, Nat.add_sub_cancel' hstart,
      List.getElem?_take_of_lt hstop]
  refine ⟨w.text[i - w.start], ?_, h.solid _ (List.getElem_mem hlen)⟩
  rw [← hget, List.getElem?_eq_getElem hlen]

theorem Word.In.stop_le (h : w.In s) : w.stop ≤ s.length := by
  have hlen := congrArg List.length h.slice_eq
  have hstop := h.stop_eq
  have hlong := h.long
  rw [slice, List.length_drop, List.length_take] at hlen
  omega

theorem exists_mem_landmark (word : Text) {pos : Nat} (hi : pos - word.length ≤ i)
    (hin : i + 1 < pos) :
    ∃ w ∈ landmark word.reverse (pos - word.length), w.start ≤ i ∧ i + 1 < w.stop := by
  refine ⟨_, mem_landmark.mpr ⟨rfl, ?_⟩, hi, ?_⟩ <;>
    simp only [List.length_reverse] <;> omega

/-- Two characters that stand side by side are in one word. -/
theorem exists_mem_wordsFrom {front word : Text} {pos : Nat}
    (hpos : pos = front.length + word.length) (hi : front.length ≤ i)
    (hfirst : SolidAt (front ++ (word.reverse ++ s)) i)
    (hsecond : SolidAt (front ++ (word.reverse ++ s)) (i + 1)) :
    ∃ w ∈ wordsFrom pos word s, w.start ≤ i ∧ i + 1 < w.stop := by
  induction s generalizing front word pos with
  | nil =>
      refine exists_mem_landmark word (by omega) ?_
      obtain ⟨c, hc, -⟩ := hsecond
      obtain ⟨hlt, -⟩ := List.getElem?_eq_some_iff.mp hc
      simp only [List.length_append, List.length_reverse, List.append_nil] at hlt
      omega
  | cons c s ih =>
      rw [wordsFrom]
      split
      next hc =>
        -- neither of the two characters is the white space that ends the word
        have hend : ∀ j, SolidAt (front ++ (word.reverse ++ c :: s)) j → j ≠ pos := by
          rintro j ⟨d, hd, hsolid⟩ rfl
          rw [hpos, List.getElem?_append_right (Nat.le_add_right ..), Nat.add_sub_cancel_left,
            List.getElem?_append_right (by rw [List.length_reverse]), List.length_reverse,
            Nat.sub_self] at hd
          obtain rfl := Option.some.inj hd
          rw [hc] at hsolid
          cases hsolid
        have hi' := hend i hfirst
        have hi'' := hend (i + 1) hsecond
        by_cases hin : i + 1 < pos
        · obtain ⟨w, hw, hcovers⟩ := exists_mem_landmark word (by omega) hin
          exact ⟨w, List.mem_append_left _ hw, hcovers⟩
        · have hnext : pos + 1 = (front ++ (word.reverse ++ [c])).length + ([] : Text).length := by
            simp only [List.length_append, List.length_reverse, List.length_singleton,
              List.length_nil]
            omega
          have happend : front ++ (word.reverse ++ c :: s) =
              front ++ (word.reverse ++ [c]) ++ (([] : Text).reverse ++ s) := by simp
          rw [happend] at hfirst hsecond
          obtain ⟨w, hw, hcovers⟩ := ih hnext (by simp only [List.length_nil] at hnext; omega)
            hfirst hsecond
          exact ⟨w, List.mem_append_right _ hw, hcovers⟩
      next hc =>
        have hnext : pos + 1 = front.length + (c :: word).length := by
          rw [hpos, List.length_cons, Nat.add_assoc]
        have happend : word.reverse ++ c :: s = (c :: word).reverse ++ s := by simp
        rw [happend] at hfirst hsecond
        exact ih hnext hi hfirst hsecond

theorem exists_mem_words {line : Text} (hfirst : SolidAt (userText line) i)
    (hsecond : SolidAt (userText line) (i + 1)) :
    ∃ w ∈ words line, w.start ≤ i ∧ i + 1 < w.stop := by
  have hempty : userText line = ([] : Text) ++ (([] : Text).reverse ++ userText line) := by
    rw [List.reverse_nil, List.nil_append, List.nil_append]
  rw [hempty] at hfirst hsecond
  have hpos : 0 = ([] : Text).length + ([] : Text).length := rfl
  exact exists_mem_wordsFrom hpos (Nat.zero_le i) hfirst hsecond

/-- A character is in a word exactly if it and one of its neighbours are seen. -/
theorem spanned_words_iff (line : Text) (i : Nat) :
    Spanned (ranges (words line)) i ↔ SolidAt (userText line) i ∧
      (SolidAt (userText line) (i + 1) ∨ ∃ j, i = j + 1 ∧ SolidAt (userText line) j) := by
  rw [spanned_ranges]
  constructor
  · rintro ⟨w, hw, hstart, hstop⟩
    have hin := in_userText_of_mem_words hw
    refine ⟨hin.solidAt hstart hstop, ?_⟩
    rcases Nat.lt_or_ge (i + 1) w.stop with hnext | hlast
    · exact .inl (hin.solidAt (Nat.le_succ_of_le hstart) hnext)
    · have hstop_eq := hin.stop_eq
      have hlong := hin.long
      exact .inr ⟨i - 1, by omega, hin.solidAt (by omega) (by omega)⟩
  · rintro ⟨hhere, hnext | ⟨j, rfl, hprev⟩⟩
    · obtain ⟨w, hw, hstart, hstop⟩ := exists_mem_words hhere hnext
      exact ⟨w, hw, hstart, Nat.lt_of_succ_lt hstop⟩
    · obtain ⟨w, hw, hstart, hstop⟩ := exists_mem_words hprev hhere
      exact ⟨w, hw, Nat.le_succ_of_le hstart, hstop⟩

/-! ## Why a character is in no word -/

/-- A word of one character stands at the offset. -/
structure Lone (s : Text) (i : Nat) : Prop where
  here : SolidAt s i
  behind : ¬SolidAt s (i + 1)
  front : ∀ j, i = j + 1 → ¬SolidAt s j

theorem lone_iff : Lone s i ↔
    SolidAt s i ∧ ¬(SolidAt s (i + 1) ∨ ∃ j, i = j + 1 ∧ SolidAt s j) := by
  rw [not_or, not_exists]
  exact ⟨fun h => ⟨h.here, h.behind, fun j hj => h.front j hj.1 hj.2⟩,
    fun h => ⟨h.1, h.2.1, fun j hj hprev => h.2.2 j ⟨hj, hprev⟩⟩⟩

theorem solidAt_userText_iff {c : Char} (hc : s[i]? = some c) :
    SolidAt (userText s) i ↔ ¬(isSpace c = true ∨ c = DateToken.arrow ∨
      Spanned (Markup.wrapperRanges s) i ∨ Spanned (dateRanges s) i) := by
  simp only [not_or, Bool.not_eq_true]
  constructor
  · rintro ⟨d, hd⟩
    obtain ⟨⟨hget, hsolid⟩, hwrapper, hdate, harrow⟩ := shows_userText.mp hd
    obtain rfl := Option.some.inj (hc.symm.trans hget)
    exact ⟨hsolid, harrow, hwrapper, hdate⟩
  · rintro ⟨hsolid, harrow, hwrapper, hdate⟩
    exact ⟨c, shows_userText.mpr ⟨⟨hc, hsolid⟩, hwrapper, hdate, harrow⟩⟩

theorem arrow_notMem_userText (s : Text) : DateToken.arrow ∉ userText s := by
  rw [userText, Text.replace, List.mem_map]
  rintro ⟨c, -, hc⟩
  split at hc
  · cases hc
  next hne => exact hne hc

theorem arrow_notMem_of_mem_words (hw : w ∈ words s) : DateToken.arrow ∉ w.text := by
  intro harrow
  rw [← (in_userText_of_mem_words hw).slice_eq] at harrow
  exact arrow_notMem_userText s (List.mem_of_mem_take (List.mem_of_mem_drop harrow))

/-- No word reaches into a wrapper. -/
theorem apart_of_mem_words (hw : w ∈ words s) {r : Nat × Nat}
    (hr : r ∈ Markup.wrapperRanges s) : w.stop ≤ r.1 ∨ r.2 ≤ w.start := by
  by_contra hboth
  rw [not_or, Nat.not_le, Nat.not_le] at hboth
  have hin := in_userText_of_mem_words hw
  have hstop := hin.stop_eq
  have hlong := hin.long
  have hnonempty : r.1 < r.2 := by
    have heq : Markup.rangesFrom s 0 = Markup.wrapperRanges s :=
      Markup.rangesFrom_eq (Nat.zero_le _)
    exact ((Markup.rangesFrom_sound s 0).1 r (heq ▸ hr)).2.nonempty
  obtain ⟨c, hc⟩ := hin.solidAt (Nat.le_max_left w.start r.1) (by omega)
  exact (shows_userText.mp hc).2.1 ⟨r, hr, Nat.le_max_right .., by omega⟩

theorem not_spanned_words_iff {c : Char} (hc : s[i]? = some c) :
    ¬Spanned (ranges (words s)) i ↔
      isSpace c = true ∨ c = DateToken.arrow ∨ Spanned (Markup.wrapperRanges s) i ∨
        Spanned (dateRanges s) i ∨ Lone (userText s) i := by
  have hseen := solidAt_userText_iff hc
  rw [spanned_words_iff, lone_iff]
  constructor
  · intro hno
    by_cases hhere : SolidAt (userText s) i
    · exact .inr (.inr (.inr (.inr ⟨hhere, fun hside => hno ⟨hhere, hside⟩⟩)))
    · rcases not_not.mp (mt hseen.mpr hhere) with hspace | harrow | hwrapper | hdate
      · exact .inl hspace
      · exact .inr (.inl harrow)
      · exact .inr (.inr (.inl hwrapper))
      · exact .inr (.inr (.inr (.inl hdate)))
  · rintro hcause ⟨hhere, hside⟩
    obtain ⟨hsolid, harrow, hwrapper, hdate⟩ := by simpa only [not_or] using hseen.mp hhere
    rcases hcause with h | h | h | h | ⟨-, hlone⟩
    · exact hsolid h
    · exact harrow h
    · exact hwrapper h
    · exact hdate h
    · exact hlone hside

/-- Each word of a line stands in it at its offsets, is longer than a character, and holds no white
space, no arrow and nothing of a wrapper. Words come one behind the other. And a character is in
none of them exactly if it is white space, an arrow, in a wrapper, in a date token, or by itself. -/
theorem words_cover (s : Text) :
    (∀ w ∈ words s, w.In s ∧ w.stop ≤ s.length ∧ DateToken.arrow ∉ w.text ∧
        ∀ r ∈ Markup.wrapperRanges s, w.stop ≤ r.1 ∨ r.2 ≤ w.start) ∧
      ((words s).Pairwise fun v w => v.stop < w.start) ∧
      ∀ i c, s[i]? = some c →
        (¬Spanned (ranges (words s)) i ↔
          isSpace c = true ∨ c = DateToken.arrow ∨ Spanned (Markup.wrapperRanges s) i ∨
            Spanned (dateRanges s) i ∨ Lone (userText s) i) := by
  refine ⟨fun w hw => ?_, pairwise_words s, fun i c hc => not_spanned_words_iff hc⟩
  have hin := in_of_mem_words hw
  exact ⟨hin, hin.stop_le, arrow_notMem_of_mem_words hw, fun r hr => apart_of_mem_words hw hr⟩

/-- The bullet and the brackets are by themselves, and the date token is written over as a whole. -/
example :
    let line := "- [ ] Pay 📅 2024-01-01 rent".toList
    ranges (words line) = [(6, 9), (23, 27)] ∧ dateRanges line = [(10, 22)] := by
  decide +kernel

end Caret

end TaskLine
