import TaskLine.Proofs.Clearing
import TaskLine.Proofs.Found

/-!
# What is left when tokens are taken out

Tokens are taken out shape by shape, and white space takes their place. Such a gap can lie between
the parts of a token that was none before: a mark and a date, an opening tag and its closing one, or
a snooze and what was glued to it. So a token can be left, but only one that a gap lies in or
borders on (`left_iff_bridged`). The invariant is that the pass for a shape leaves no token of this
shape that no gap touches, and makes no such token of another shape (`Whole.of_pass`).

To tell gaps from the spaces of a text, the text is read off a list in which they are marked
(`Gapped`).
-/

namespace TaskLine.DateToken

/-- Take out the tokens of one shape after the other, and put something in their place. -/
def strip (fill : Text → Text) (shs : List Shape) (s : Text) : Text :=
  shs.foldl (fun t sh => Chunk.filled fill (sh.chunks t)) s

/-! ## Texts with gaps -/

/-- A text with gaps, written `none`, where tokens were taken out. -/
abbrev Gapped := List (Option Char)

/-- The text that is seen: a gap is a space. -/
def seen (g : Gapped) : Text := g.map (·.getD ' ')

/-- Turn marked chunks into gaps: `width n` of them for a chunk of `n` characters. -/
def cut (width : Nat → Nat) : List Chunk → Gapped → Gapped
  | [], g => g
  | k :: ks, g =>
    (if k.marked then List.replicate (width k.text.length) none else g.take k.text.length) ++
      cut width ks (g.drop k.text.length)

/-- Take out the tokens of one shape. -/
def pass (width : Nat → Nat) (g : Gapped) (sh : Shape) : Gapped :=
  cut width (sh.chunks (seen g)) g

/-- The text with gaps in place of all tokens that are taken out, shape by shape. -/
def gaps (width : Nat → Nat) (s : Text) : Gapped := Shape.all.foldl (pass width) (s.map some)

variable {width : Nat → Nat} {g m b : Gapped} {sh σ : Shape} {s : Text}

theorem seen_append (g g' : Gapped) : seen (g ++ g') = seen g ++ seen g' := List.map_append

theorem seen_map_some (s : Text) : seen (s.map some) = s := by
  rw [seen, List.map_map]
  exact List.map_id' s

theorem seen_cut {ks : List Chunk} (h : Chunk.joined ks = seen g) :
    seen (cut width ks g) = Chunk.filled (fun t => Text.spaces (width t.length)) ks := by
  induction ks generalizing g with
  | nil =>
      rw [cut, ← h]
      rfl
  | cons k ks ih =>
      have hle : k.text.length ≤ g.length := by
        have hlen := congrArg List.length h
        rw [Chunk.joined_cons, List.length_append, seen, List.length_map] at hlen
        omega
      have hsplit : seen g = seen (g.take k.text.length) ++ seen (g.drop k.text.length) := by
        rw [← seen_append, List.take_append_drop]
      rw [Chunk.joined_cons, hsplit] at h
      obtain ⟨htext, hrest⟩ := List.append_inj h (by
        rw [seen, List.length_map, List.length_take_of_le hle])
      rw [cut, seen_append, ih hrest, Chunk.filled_cons]
      split
      · rw [seen, List.map_replicate]
        rfl
      · exact congrArg (· ++ _) htext.symm

theorem seen_foldl_pass (shs : List Shape) (g : Gapped) :
    seen (shs.foldl (pass width) g) =
      strip (fun t => Text.spaces (width t.length)) shs (seen g) := by
  induction shs generalizing g with
  | nil => rfl
  | cons sh shs ih =>
      rw [List.foldl_cons, ih, pass, seen_cut (sh.joined_chunks (seen g))]
      rfl

theorem seen_gaps_one (s : Text) : seen (gaps (fun _ => 1) s) = remove s := by
  rw [gaps, seen_foldl_pass, seen_map_some]
  rfl

theorem seen_gaps_id (s : Text) : seen (gaps id s) = blank s := by
  rw [gaps, seen_foldl_pass, seen_map_some]
  rfl

theorem pass_cons {x : Option Char} (h : sh.after? (seen (x :: g)) = none) :
    pass width (x :: g) sh = x :: pass width g sh := by
  rw [seen, List.map_cons] at h
  rw [pass, seen, List.map_cons, Shape.chunks_cons_of_none h]
  rfl

theorem pass_append (hne : m ≠ []) (h : sh.after? (seen m ++ seen g) = some (seen g)) :
    pass width (m ++ g) sh = List.replicate (width m.length) none ++ pass width g sh := by
  have hseen : seen m ≠ [] := fun hnil => hne (List.map_eq_nil_iff.mp hnil)
  rw [pass, seen_append, Shape.chunks_append_of_some hseen h, cut, if_pos rfl, seen,
    List.length_map, List.drop_left, pass]

/-- A text with gaps is taken apart as a scan for tokens takes apart what is seen. -/
theorem Shape.gapped_induction (sh : Shape) {motive : Gapped → Prop} (nil : motive [])
    (char : ∀ x g, sh.after? (seen (x :: g)) = none → motive g → motive (x :: g))
    (token : ∀ m g, m ≠ [] → sh.after? (seen m ++ seen g) = some (seen g) → motive g →
      motive (m ++ g))
    (g : Gapped) : motive g := by
  generalize hs : seen g = s
  induction s using sh.scan_induction generalizing g with
  | nil =>
      obtain rfl := List.map_eq_nil_iff.mp hs
      exact nil
  | char c s hnone ih =>
      obtain ⟨x, g, rfl, rfl, rfl⟩ := List.map_eq_cons_iff.mp hs
      exact char x g hnone (ih g rfl)
  | token t u hacc hafter ih =>
      obtain ⟨m, g, rfl, rfl, rfl⟩ := List.map_eq_append_iff.mp hs
      obtain ⟨c, tail, hmark, -⟩ := hacc.exists_mark
      exact token m g (by rintro rfl; cases hmark) hafter (ih g rfl)

/-! ## Tokens that gaps touch, and whole ones -/

/-- What stands in front of `b` in the text reads as a token of the shape. -/
structure Stands (sh : Shape) (g m b : Gapped) : Prop where
  suffix : m ++ b <:+ g
  after? : sh.after? (seen m ++ seen b) = some (seen b)

/-- A gap lies in a stretch of the text or right behind it. -/
def Touched (m b : Gapped) : Prop := none ∈ m ∨ b.head? = some none

/-- A token stands in the text that a gap touches. -/
def Bridged (g : Gapped) : Prop := ∃ sh m b, Stands sh g m b ∧ Touched m b

/-- A token of the shape stands in the text that no gap touches. -/
def Whole (sh : Shape) (g : Gapped) : Prop := ∃ m b, Stands sh g m b ∧ ¬Touched m b

theorem Stands.ne_nil (h : Stands sh g m b) : m ≠ [] := by
  rintro rfl
  obtain ⟨t, ht, hacc, -⟩ := Shape.after?_eq_some_iff.mp h.after?
  obtain ⟨c, tail, rfl, -⟩ := hacc.exists_mark
  exact List.cons_ne_nil _ _ (List.append_cancel_right ht).symm

theorem Whole.mono {g' : Gapped} (h : Whole sh g) (hg : g <:+ g') : Whole sh g' := by
  obtain ⟨m, b, hstands, htouched⟩ := h
  exact ⟨m, b, ⟨hstands.suffix.trans hg, hstands.after?⟩, htouched⟩

/-- Gaps are a part of no whole token. -/
theorem suffix_of_gaps {n : Nat} (hne : m ≠ []) (hm : none ∉ m)
    (h : m ++ b <:+ List.replicate n none ++ g) : m ++ b <:+ g := by
  induction n with
  | zero => exact h
  | succ n ih =>
      rw [List.replicate_succ, List.cons_append, List.suffix_cons_iff] at h
      refine ih (h.resolve_left fun heq => ?_)
      obtain ⟨x, m, rfl⟩ := List.exists_cons_of_ne_nil hne
      rw [List.cons_append, List.cons.injEq] at heq
      exact hm (heq.1 ▸ List.mem_cons_self)

/-! ## One pass -/

/-- What no gap touches in front stood there before the pass. -/
theorem exists_of_pass_eq_append (hwidth : ∀ n, 0 < n → 0 < width n)
    (h : pass width g σ = m ++ b) (htouched : ¬Touched m b) :
    ∃ b', g = m ++ b' ∧ b'.head? = b.head? := by
  induction g using σ.gapped_induction generalizing m with
  | nil =>
      obtain ⟨rfl, rfl⟩ := List.append_eq_nil_iff.mp h.symm
      exact ⟨[], rfl, rfl⟩
  | char x g hnone ih =>
      rw [pass_cons hnone] at h
      cases m with
      | nil => exact ⟨x :: g, rfl, by rw [← List.nil_append b, ← h]; rfl⟩
      | cons y m =>
          obtain ⟨rfl, hrest⟩ := List.cons.inj h
          obtain ⟨b', rfl, hhead⟩ := ih hrest fun ht =>
            htouched (ht.imp_left (List.mem_cons_of_mem _))
          exact ⟨b', rfl, hhead⟩
  | token t g hne hafter ih =>
      obtain ⟨n, hn⟩ := Nat.exists_eq_add_of_lt (hwidth _ (List.length_pos_of_ne_nil hne))
      rw [pass_append hne hafter, hn, Nat.zero_add, List.replicate_succ, List.cons_append] at h
      refine absurd ?_ htouched
      cases m with
      | nil => exact .inr (by rw [← List.nil_append b, ← h]; rfl)
      | cons y m => exact .inl (by rw [← (List.cons.inj h).1]; exact List.mem_cons_self)

/-- A whole token that a pass leaves was whole before, and is of another shape. -/
theorem Whole.of_pass (hwidth : ∀ n, 0 < n → 0 < width n) (h : Whole sh (pass width g σ)) :
    sh ≠ σ ∧ Whole sh g := by
  induction g using σ.gapped_induction with
  | nil =>
      obtain ⟨m, b, hstands, -⟩ := h
      have hnil := List.suffix_nil.mp hstands.suffix
      exact absurd (List.append_eq_nil_iff.mp hnil).1 hstands.ne_nil
  | char x g hnone ih =>
      rw [pass_cons hnone] at h
      obtain ⟨m, b, hstands, htouched⟩ := h
      rcases List.suffix_cons_iff.mp hstands.suffix with heq | hsuffix
      · -- the token begins at this character
        rw [← pass_cons hnone] at heq
        obtain ⟨b', hg, hhead⟩ := exists_of_pass_eq_append hwidth heq.symm htouched
        have hafter : sh.after? (seen m ++ seen b') = some (seen b') :=
          Shape.after?_congr hstands.after? (by simp [seen, hhead])
        refine ⟨?_, m, b', ⟨hg ▸ List.suffix_rfl, hafter⟩, by rwa [Touched, hhead]⟩
        rintro rfl
        rw [hg, seen_append, hafter] at hnone
        cases hnone
      · obtain ⟨hne, hwhole⟩ := ih ⟨m, b, ⟨hsuffix, hstands.after?⟩, htouched⟩
        exact ⟨hne, hwhole.mono (List.suffix_cons x g)⟩
  | token t g hne hafter ih =>
      rw [pass_append hne hafter] at h
      obtain ⟨m, b, hstands, htouched⟩ := h
      have hsuffix := suffix_of_gaps hstands.ne_nil (fun hm => htouched (.inl hm)) hstands.suffix
      obtain ⟨hne, hwhole⟩ := ih ⟨m, b, ⟨hsuffix, hstands.after?⟩, htouched⟩
      exact ⟨hne, hwhole.mono (List.suffix_append t g)⟩

/-! ## All passes -/

theorem not_whole_foldl_pass (hwidth : ∀ n, 0 < n → 0 < width n) {shs : List Shape}
    (hmem : sh ∈ shs) (g : Gapped) : ¬Whole sh (shs.foldl (pass width) g) := by
  induction shs using List.reverseRecOn with
  | nil => cases hmem
  | append_singleton shs σ ih =>
      rw [List.foldl_append, List.foldl_cons, List.foldl_nil]
      intro h
      obtain ⟨hne, hwhole⟩ := h.of_pass hwidth
      rcases List.mem_append.mp hmem with hmem | hmem
      · exact ih hmem hwhole
      · exact hne (List.mem_singleton.mp hmem)

/-! ## Texts without tokens -/

theorem Shape.found_eq_nil_iff :
    Chunk.found (sh.chunks s) = [] ↔ ∀ t, t <:+ s → sh.after? t = none := by
  induction s using sh.scan_induction with
  | nil =>
      refine ⟨fun _ t ht => ?_, fun _ => rfl⟩
      rw [List.suffix_nil.mp ht]
      cases sh <;> rfl
  | char c s hnone ih =>
      rw [Shape.chunks_cons_of_none hnone, Chunk.found_cons, if_neg Bool.false_ne_true,
        List.nil_append, ih]
      refine ⟨fun h t ht => ?_, fun h t ht => h t (ht.trans (List.suffix_cons c s))⟩
      rcases List.suffix_cons_iff.mp ht with rfl | ht
      · exact hnone
      · exact h t ht
  | token t u hacc hafter ih =>
      rw [Shape.chunks_append_of_some hacc.tokenlike.firm.ne_nil hafter, Chunk.found_cons]
      refine ⟨nofun, fun h => ?_⟩
      rw [h _ List.suffix_rfl] at hafter
      cases hafter

theorem ordered_eq_nil_iff : ordered s = [] ↔ ∀ sh : Shape, Chunk.found (sh.chunks s) = [] := by
  rw [ordered, List.map_eq_nil_iff, ← List.length_eq_zero_iff, (sortBy_perm _ _).length_eq,
    List.length_eq_zero_iff, found, List.flatMap_eq_nil_iff]
  exact ⟨fun h sh => List.map_eq_nil_iff.mp (h sh sh.mem_all),
    fun h sh _ => List.map_eq_nil_iff.mpr (h sh)⟩

theorem ordered_seen_eq_nil_iff : ordered (seen g) = [] ↔ ∀ sh m b, ¬Stands sh g m b := by
  simp only [ordered_eq_nil_iff, Shape.found_eq_nil_iff]
  refine ⟨fun h sh m b hstands => ?_, fun h sh t ht => ?_⟩
  · have hnone := h sh (seen (m ++ b)) (hstands.suffix.map _)
    rw [seen_append, hstands.after?] at hnone
    cases hnone
  · by_contra hsome
    obtain ⟨u, hu⟩ := Option.ne_none_iff_exists'.mp hsome
    obtain ⟨x, rfl, -⟩ := Shape.after?_eq_some_iff.mp hu
    obtain ⟨y, hsuffix, hy⟩ := List.suffix_map_iff.mp ht
    obtain ⟨m, b, rfl, rfl, rfl⟩ := List.map_eq_append_iff.mp hy.symm
    exact h sh m b ⟨hsuffix, hu⟩

theorem ordered_gaps_eq_nil_iff (hwidth : ∀ n, 0 < n → 0 < width n) (s : Text) :
    ordered (seen (gaps width s)) = [] ↔ ¬Bridged (gaps width s) := by
  rw [ordered_seen_eq_nil_iff]
  constructor
  · rintro h ⟨sh, m, b, hstands, -⟩
    exact h sh m b hstands
  · intro h sh m b hstands
    refine not_whole_foldl_pass hwidth sh.mem_all _ ⟨m, b, hstands, fun htouched => ?_⟩
    exact h ⟨sh, m, b, hstands, htouched⟩

/-! ## Taking out tokens once more -/

section Again

variable {fill : Text → Text}

/-- Marks go only with the tokens that are taken out. -/
theorem Shape.countP_isMark (hfill : ∀ t, Unmarked (fill t)) (sh : Shape) (s : Text) :
    s.countP isMark = (Chunk.filled fill (sh.chunks s)).countP isMark +
      (Chunk.found (sh.chunks s)).flatten.countP isMark := by
  have hzero : ∀ t, (fill t).countP isMark = 0 := fun t =>
    List.countP_eq_zero.mpr fun c hc => Bool.eq_false_iff.mp (hfill t c hc)
  have h := Chunk.countP_joined isMark fill hzero (sh.chunks s)
  rwa [sh.joined_chunks] at h

theorem countP_isMark_strip_le (hfill : ∀ t, Unmarked (fill t)) (shs : List Shape) (s : Text) :
    (strip fill shs s).countP isMark ≤ s.countP isMark := by
  induction shs generalizing s with
  | nil => exact le_rfl
  | cons sh shs ih =>
      rw [sh.countP_isMark hfill s]
      exact (ih _).trans (Nat.le_add_right ..)

theorem strip_eq_self_iff (hfill : ∀ t, Unmarked (fill t)) {shs : List Shape} :
    strip fill shs s = s ↔ ∀ sh ∈ shs, Chunk.found (sh.chunks s) = [] := by
  induction shs with
  | nil => exact ⟨fun _ => List.forall_mem_nil _, fun _ => rfl⟩
  | cons sh shs ih =>
      have hsame : Chunk.found (sh.chunks s) = [] → Chunk.filled fill (sh.chunks s) = s :=
        fun h => (Chunk.filled_of_found_eq_nil h).trans (sh.joined_chunks s)
      rw [strip, List.foldl_cons, ← strip, List.forall_mem_cons]
      constructor
      · intro h
        have hle := countP_isMark_strip_le hfill shs (Chunk.filled fill (sh.chunks s))
        rw [h, sh.countP_isMark hfill s] at hle
        have hnone : Chunk.found (sh.chunks s) = [] := by
          refine List.eq_nil_iff_forall_not_mem.mpr fun t ht => ?_
          obtain ⟨m, tail, rfl, hm⟩ := (Shape.tokenlike_of_mem_found ht).exists_mark
          have hpos : 0 < (Chunk.found (sh.chunks s)).flatten.countP isMark :=
            List.countP_pos_iff.mpr ⟨m, List.mem_flatten_of_mem ht List.mem_cons_self, hm⟩
          omega
        rw [hsame hnone] at h
        exact ⟨hnone, ih.mp h⟩
      · rintro ⟨hnone, hrest⟩
        rw [hsame hnone]
        exact ih.mpr hrest

theorem strip_all_eq_self_iff (fill : Text → Text) (hfill : ∀ t, Unmarked (fill t)) :
    strip fill Shape.all s = s ↔ ordered s = [] := by
  rw [strip_eq_self_iff hfill, ordered_eq_nil_iff]
  exact forall_congr' fun sh => ⟨fun h => h sh.mem_all, fun h _ => h⟩

end Again

/-- A token is left when the tokens are taken out or blanked exactly if a gap touches it, that is
if it has come about by taking out others. Just then taking out tokens once more changes the
text. -/
theorem left_iff_bridged (s : Text) :
    (seen (gaps (fun _ => 1) s) = remove s ∧ seen (gaps id s) = blank s) ∧
    (ordered (remove s) = [] ↔ ¬Bridged (gaps (fun _ => 1) s)) ∧
    (ordered (blank s) = [] ↔ ¬Bridged (gaps id s)) ∧
    (remove (remove s) = remove s ↔ ordered (remove s) = []) ∧
    (blank (blank s) = blank s ↔ ordered (blank s) = []) := by
  refine ⟨⟨seen_gaps_one s, seen_gaps_id s⟩, ?_, ?_,
    strip_all_eq_self_iff (fun _ => [' ']) fun _ => by decide,
    strip_all_eq_self_iff (fun t => Text.spaces t.length) fun _ => ?_⟩
  · rw [← seen_gaps_one]
    exact ordered_gaps_eq_nil_iff (fun _ _ => Nat.one_pos) s
  · rw [← seen_gaps_id]
    exact ordered_gaps_eq_nil_iff (fun _ => id) s
  · exact unmarked_of_blank fun c hc => by rw [List.eq_of_mem_replicate hc]; rfl

/-- A date between a mark and another date. -/
def splitDate : Text := "📅 📅 2024-01-01 2024-01-02".toList

/-- The date that is taken out leaves the mark and the other date side by side. -/
theorem splitDate_left :
    ordered (remove splitDate) = ["📅   2024-01-02".toList] ∧
      ordered (blank splitDate) = ["📅              2024-01-02".toList] := by
  decide +kernel

end TaskLine.DateToken
