import TaskLine.Proofs.Scanning

/-!
# Where the scanner emerges

The scanner *emerges* from a text when it comes out of it between tags, whatever follows
(`Emerges`). It may have found closed wrappers there, in contrast to a text that it passes. What it
finds in a longer text is then what it finds in the one and in the other
(`Emerges.wrappers_append`).
Conversely, it has emerged from all that stands in front of a wrapper that it finds
(`exists_emerges_of_mem`).
-/

namespace TaskLine.Markup

/-- A text made of characters other than `<`, of whole tags that open no wrapper, and of closed
wrappers. -/
inductive Emerges : Text → Prop
  | nil : Emerges []
  | char {c : Char} {s : Text} : c ≠ '<' → Emerges s → Emerges (c :: s)
  | tag {t s : Text} : WholeTag t → opensWrapper t = false → Emerges s → Emerges (t ++ s)
  | wrapper {w s : Text} : Closed w → Emerges s → Emerges (w ++ s)

theorem Emerges.of_not_mem {s : Text} (h : '<' ∉ s) : Emerges s := by
  induction s with
  | nil => exact .nil
  | cons c s ih =>
      rw [List.mem_cons, not_or] at h
      exact .char (fun hc => h.1 hc.symm) (ih h.2)

theorem Emerges.wrappers_append {s : Text} (h : Emerges s) (u : Text) :
    wrappers (s ++ u) = wrappers s ++ wrappers u := by
  induction h with
  | nil => rfl
  | char hc _ ih => rw [List.cons_append, wrappers_cons_of_ne hc, wrappers_cons_of_ne hc, ih]
  | @tag t s htag hkey _ ih =>
      have hreads : Reads t [] t := by
        simpa using Reads.of_chunk (m := false) fun u => chunks_tag htag hkey u
      rw [List.append_assoc, hreads.wrappers, hreads.wrappers, ih]
      rfl
  | wrapper hw _ ih =>
      rw [List.append_assoc, hw.reads.wrappers, hw.reads.wrappers, ih, List.append_assoc]

theorem Emerges.of_cons {c : Char} {s : Text} (h : Emerges (c :: s)) (hc : c ≠ '<') :
    Emerges s := by
  generalize hcs : c :: s = cs at h
  induction h with
  | nil => cases hcs
  | char _ h _ =>
      obtain ⟨-, rfl⟩ := List.cons.inj hcs
      exact h
  | tag htag _ _ _ =>
      obtain ⟨t, rfl⟩ := htag.begins
      exact absurd (List.cons.inj hcs).1 hc
  | wrapper hw _ _ =>
      obtain ⟨t, rfl, -⟩ := hw.exists_ends
      exact absurd (List.cons.inj hcs).1 hc

theorem emerges_cons_iff {c : Char} (hc : c ≠ '<') {s : Text} : Emerges (c :: s) ↔ Emerges s :=
  ⟨fun h => h.of_cons hc, .char hc⟩

theorem emerges_append_iff {g : Text} (hg : '<' ∉ g) {s : Text} :
    Emerges (g ++ s) ↔ Emerges s := by
  induction g with
  | nil => exact Iff.rfl
  | cons c g ih =>
      obtain ⟨hc, hg⟩ := List.ne_and_not_mem_of_not_mem_cons hg
      rw [List.cons_append, emerges_cons_iff (Ne.symm hc), ih hg]

theorem wrappers_append_of_not_mem {g : Text} (hg : '<' ∉ g) (s : Text) :
    wrappers (g ++ s) = wrappers s :=
  (Passes.of_not_mem hg).reads.wrappers s

/-- A wrapper with something behind it is closed. -/
theorem closed_of_readWrapper {cs : Text} (hmark : (readWrapper '<' cs).1 = true)
    (hlen : (readWrapper '<' cs).2 < cs.length) :
    Closed ('<' :: cs.take (readWrapper '<' cs).2) := by
  generalize hn : (readWrapper '<' cs).2 = n at hlen ⊢
  have hbehind : cs.drop n ≠ [] := by
    rw [ne_eq, List.drop_eq_nil_iff]
    exact Nat.not_le_of_lt hlen
  have htake : (cs.take n).length = n := List.length_take_of_le (Nat.le_of_lt hlen)
  have hread : readWrapper '<' (cs.take n ++ ['x']) = (true, n) := by
    rw [readWrapper_append hbehind (by rw [List.take_append_drop, hn, htake]),
      List.take_append_drop]
    exact Prod.ext hmark hn
  rw [Closed, List.cons_append, wrappers_cons, hread, if_pos rfl,
    List.take_append_of_le_length (Nat.le_of_eq htake.symm), List.take_of_length_le htake.le,
    List.drop_append_of_le_length (Nat.le_of_eq htake.symm), List.drop_of_length_le htake.le]
  rfl

/-- The scanner has emerged from what stands in front of a wrapper that it finds. -/
theorem exists_emerges_of_mem {w s : Text} (h : w ∈ wrappers s) :
    ∃ a b, s = a ++ (w ++ b) ∧ Emerges a := by
  match s with
  | [] => cases h
  | c :: cs =>
      by_cases hc : c = '<'
      · subst hc
        rw [wrappers_cons, List.mem_append] at h
        rcases h with h | h
        · split at h
          · rw [List.mem_singleton.mp h]
            refine ⟨[], cs.drop (readWrapper '<' cs).2, ?_, .nil⟩
            rw [List.nil_append, List.cons_append, List.take_append_drop]
          · cases h
        · -- something stands behind the first chunk, so that has come to its end
          have hlen : (readWrapper '<' cs).2 < cs.length := by
            by_contra hle
            rw [List.drop_eq_nil_of_le (Nat.le_of_not_lt hle)] at h
            cases h
          obtain ⟨a, b, hab, ha⟩ := exists_emerges_of_mem h
          refine ⟨'<' :: cs.take (readWrapper '<' cs).2 ++ a, b, ?_, ?_⟩
          · rw [List.append_assoc, ← hab, List.cons_append, List.take_append_drop]
          · cases hmark : (readWrapper '<' cs).1 with
            | true => exact .wrapper (closed_of_readWrapper hmark hlen) ha
            | false =>
                rcases wholeTag_of_readWrapper hmark with hall | ⟨htag, hkey⟩
                · exact absurd hall (Nat.ne_of_lt hlen)
                · exact .tag htag hkey ha
      · rw [wrappers_cons_of_ne hc] at h
        obtain ⟨a, b, rfl, ha⟩ := exists_emerges_of_mem h
        exact ⟨c :: a, b, rfl, .char hc ha⟩
termination_by s.length
decreasing_by
  · rw [List.length_drop, List.length_cons]; omega
  · simp

end TaskLine.Markup
