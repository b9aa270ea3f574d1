import TaskLine.Format
import TaskLine.Proofs.Acceptance
import TaskLine.Proofs.Caret.Words
import TaskLine.Proofs.Placement

/-!
# A caret behind a word

A caret that stands behind a word of the user's text follows this word, since no word that ends
later qualifies (`lastBefore_eq_some`). It goes behind the first place where the text of the word
stands in the new line (`map_caret_stop`), and it is not asked whether it stands there as this word,
as an equal one, as a part of another or in a wrapper that was moved to the front. So, where
formatting keeps the words, the caret is behind the same word again exactly if its text stands
nowhere before it (`caret_behind_word`).
-/

namespace TaskLine.Caret

variable {line new s p : Text} {w : Word} {i k : Nat}

/-! ## First occurrences -/

theorem exists_find?_le (a p b : Text) :
    ∃ i, Text.find? p (a ++ (p ++ b)) = some i ∧ i ≤ a.length := by
  induction a with
  | nil =>
      refine ⟨0, ?_, le_rfl⟩
      rw [List.nil_append]
      cases h : p ++ b with
      | nil =>
          rw [(List.append_eq_nil_iff.mp h).1]
          rfl
      | cons c s =>
          rw [Text.find?, ← h, DateToken.after?_append]
          rfl
  | cons c a ih =>
      obtain ⟨i, hi, hle⟩ := ih
      rw [List.cons_append, Text.find?]
      split
      · exact ⟨0, rfl, Nat.zero_le _⟩
      · exact ⟨i + 1, by rw [hi]; rfl, Nat.succ_le_succ hle⟩

theorem Word.In.exists_find? (h : w.In s) : ∃ i, Text.find? w.text s = some i ∧ i ≤ w.start := by
  obtain ⟨a, b, rfl, hstart⟩ := h.eq_append
  rw [← hstart]
  exact exists_find?_le a w.text b

theorem add_length_le_of_find? (h : Text.find? p s = some i) : i + p.length ≤ s.length := by
  obtain ⟨a, b, rfl, rfl⟩ := DateToken.exists_of_find? h
  rw [List.length_append, List.length_append]
  exact Nat.le_add_right ..

/-! ## The last word before the caret -/

theorem foldl_of_lt {caret : Int} {best : Option (Nat × Nat)} {entries : List (Nat × Nat)}
    (h : ∀ e ∈ entries, caret < e.1) :
    entries.foldl (fun best e => if (e.1 : Int) ≤ caret then some e else best) best = best := by
  induction entries with
  | nil => rfl
  | cons e entries ih =>
      obtain ⟨he, hrest⟩ := List.forall_mem_cons.mp h
      rw [List.foldl_cons, if_neg (Int.not_le.mpr he), ih hrest]

/-- A word that ends at the caret is the last one that does so at or before it. -/
theorem lastBefore_eq_some {entries : List (Nat × Nat)} {e : Nat × Nat}
    (hsorted : entries.Pairwise (·.1 < ·.1)) (hmem : e ∈ entries) :
    lastBefore e.1 entries = some e := by
  obtain ⟨front, back, rfl⟩ := List.append_of_mem hmem
  obtain ⟨-, hback, -⟩ := List.pairwise_append.mp hsorted
  rw [lastBefore, List.foldl_append, List.foldl_cons, if_pos (Int.le_refl _), foldl_of_lt]
  exact fun x hx => Int.ofNat_lt.mpr ((List.pairwise_cons.mp hback).1 x hx)

theorem pairwise_wordMap (line new : Text) :
    (wordMap (words line) new).Pairwise (·.1 < ·.1) := by
  refine (pairwise_stop_words line).filterMap _ fun v w hlt e he e' he' => ?_
  obtain ⟨i, -, rfl⟩ := Option.map_eq_some_iff.mp he
  obtain ⟨j, -, rfl⟩ := Option.map_eq_some_iff.mp he'
  exact hlt

/-! ## Following a word -/

theorem place_zero {length stop : Nat} (h : stop ≤ length) :
    place length 0 stop = .caret stop := by
  have hclamp : clampTo length (stop : Int) = stop := by
    rw [clampTo]
    omega
  rw [place_caret, hclamp]

/-- A caret at the old end of a word goes to its new end. -/
theorem byWord?_caret {entries : List (Nat × Nat)} {old now : Nat}
    (hsorted : entries.Pairwise (·.1 < ·.1)) (hmem : (old, now) ∈ entries)
    (hle : now ≤ new.length) : byWord? new (.caret old) entries = some (.caret now) := by
  have hlast : lastBefore (Selection.caret old).stop entries = some (old, now) :=
    lastBefore_eq_some hsorted hmem
  have hwidth : (Selection.caret old).width = 0 := by
    rw [Selection.width, Selection.caret, Int.sub_self, Int.max_self]
  have hmoved : (Selection.caret old).stop + ((now : Int) - old) = now := by
    simp only [Selection.caret]
    omega
  have hplace : place new.length (Selection.caret old).width
      ((Selection.caret old).stop + ((now : Int) - old)) = .caret now := by
    rw [hwidth, hmoved, place_zero hle]
  rw [byWord?, hlast]
  exact congrArg some hplace

/-- A caret behind a word goes behind the first place where its text stands in the new line. -/
theorem map_caret_stop (hne : line ≠ new) (hw : w ∈ words line)
    (hfind : Text.find? w.text new = some i) :
    map line new (.caret w.stop) = .caret (i + w.text.length) := by
  have hmem : (w.stop, i + w.text.length) ∈ wordMap (words line) new :=
    List.mem_filterMap.mpr ⟨w, hw, by rw [hfind, Option.map_some]⟩
  have hmap := byWord?_caret (pairwise_wordMap line new) hmem (add_length_le_of_find? hfind)
  rw [map, if_neg hne, hmap]
  rfl

/-- When formatting a line keeps the texts of its words, a caret behind a word goes behind the first
place where the text of this word stands in the new line, and so behind the same word exactly if
the text stands nowhere before it, or if nothing has changed. -/
theorem caret_behind_word {ov : Overrides}
    (hsame : (words line).map Word.text = (words (formatLine ov line)).map Word.text)
    (hw : (words line)[k]? = some w) :
    ∃ w' i, (words (formatLine ov line))[k]? = some w' ∧ w'.text = w.text ∧
      Text.find? w.text (formatLine ov line) = some i ∧ i ≤ w'.start ∧
      (line ≠ formatLine ov line →
        map line (formatLine ov line) (.caret w.stop) = .caret (i + w.text.length)) ∧
      (map line (formatLine ov line) (.caret w.stop) = .caret w'.stop ↔
        line = formatLine ov line ∨ i = w'.start) := by
  generalize formatLine ov line = new at hsame ⊢
  obtain ⟨w', hw', htext⟩ : ∃ w', (words new)[k]? = some w' ∧ w'.text = w.text := by
    have hk : ((words new).map Word.text)[k]? = some w.text := by
      rw [← hsame, List.getElem?_map, hw]
      rfl
    rwa [List.getElem?_map, Option.map_eq_some_iff] at hk
  have hin := in_of_mem_words (List.mem_of_getElem? hw')
  obtain ⟨i, hfind, hle⟩ := hin.exists_find?
  rw [htext] at hfind
  have hmap := fun hne => map_caret_stop hne (List.mem_of_getElem? hw) hfind
  refine ⟨w', i, hw', htext, hfind, hle, hmap, ?_⟩
  by_cases hne : line = new
  · subst hne
    obtain rfl := Option.some.inj (hw.symm.trans hw')
    exact iff_of_true (if_pos rfl) (.inl rfl)
  · rw [hmap hne, hin.stop_eq, htext, or_iff_right hne]
    simp only [Selection.caret, Selection.mk.injEq, and_self]
    omega

/-- Two words with a wrapper behind them that is written in front of them. -/
def reportLine : Text :=
  ("- [ ] Write report<span data-template-key=\"agile.epic\" " ++
    "data-order-tag=\"artifact-item-type\">E</span>").toList

/-- The caret behind the second word is behind it again. -/
theorem caret_behind_word_report :
    ∃ w', (words (formatLine {} reportLine))[1]? = some w' ∧
      map reportLine (formatLine {} reportLine) (.caret 18) = .caret w'.stop := by
  have hsame : (words reportLine).map Word.text =
      (words (formatLine {} reportLine)).map Word.text := by decide +kernel
  have hw : (words reportLine)[1]? = some ⟨"report".toList, 12, 18⟩ := by decide +kernel
  obtain ⟨w', i, hw', -, hfind, -, -, hiff⟩ := caret_behind_word hsame hw
  refine ⟨w', hw', hiff.mpr (.inr ?_)⟩
  have hstands : ((words (formatLine {} reportLine))[1]?).map Word.start =
      Text.find? "report".toList (formatLine {} reportLine) := by decide +kernel
  rw [hw', hfind] at hstands
  exact (Option.some.inj hstands).symm

/-- A word twice. -/
def fooFoo : Text := "- [ ]  foo foo".toList

/-- The caret behind the second word jumps behind the first one. -/
theorem caret_jumps_fooFoo :
    (Task.read? fooFoo).isSome = true ∧
      (words fooFoo).map Word.text = (words (formatLine {} fooFoo)).map Word.text ∧
      (words fooFoo)[1]? = some ⟨"foo".toList, 11, 14⟩ ∧
      (words (formatLine {} fooFoo))[1]? = some ⟨"foo".toList, 10, 13⟩ ∧
      map fooFoo (formatLine {} fooFoo) (.caret 14) = .caret 9 ∧
      map fooFoo (formatLine {} fooFoo) (.caret 14) ≠ .caret 13 := by
  decide +kernel

end TaskLine.Caret
