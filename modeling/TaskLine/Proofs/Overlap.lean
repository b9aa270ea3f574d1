import Mathlib.Data.List.Nodup
import Mathlib.Data.List.Perm.Subperm
import TaskLine.Proofs.Tokens

/-!
# Tokens inside tokens

Each shape is looked for on its own, so a stretch of a text can be taken by two scans. No two of
them take tokens that begin in the same place (`Hit.shape_eq`), and behind its mark a token has
other marks only in its hidden part. So the tokens of a text are apart from each other exactly if
none of them begins in what another hides (`hits_apart_iff`), and then they are not longer than the
text together. A date in a hidden name is found twice (`hiddenDate_found_twice`).
-/

namespace TaskLine.DateToken

/-! ## Where tokens are taken -/

/-- A token that a scan takes: its shape, where it starts, and what it reads. -/
structure Hit where
  shape : Shape
  start : Nat
  text : Text
deriving DecidableEq, Repr

namespace Hit

/-- Where the token stops. -/
def stop (h : Hit) : Nat := h.start + h.text.length

/-- No character belongs to both. -/
def Apart (a b : Hit) : Prop := a.stop ≤ b.start ∨ b.stop ≤ a.start

instance (a b : Hit) : Decidable (a.Apart b) := inferInstanceAs (Decidable (_ ∨ _))

instance : Std.Symm Apart := ⟨fun _ _ => Or.symm⟩

/-- The second token begins in the hidden part of the first. -/
def Hides (a b : Hit) : Prop :=
  a.start + a.shape.opening.length ≤ b.start ∧
    b.start < a.start + a.shape.opening.length + (a.shape.hidden a.text).length

end Hit

/-- The tokens among chunks that begin at an offset. -/
def Shape.hitsFrom (sh : Shape) (pos : Nat) : List Chunk → List Hit
  | [] => []
  | k :: ks =>
    (if k.marked then [⟨sh, pos, k.text⟩] else []) ++ sh.hitsFrom (pos + k.text.length) ks

/-- The tokens that the scan for a shape takes from a text. -/
def Shape.hits (sh : Shape) (s : Text) : List Hit := sh.hitsFrom 0 (sh.chunks s)

/-- The tokens that the scans take from a text, shape by shape. -/
def hits (s : Text) : List Hit := Shape.all.flatMap (·.hits s)

namespace Shape

variable {sh : Shape}

theorem map_text_hitsFrom (pos : Nat) (ks : List Chunk) :
    (sh.hitsFrom pos ks).map Hit.text = Chunk.found ks := by
  induction ks generalizing pos with
  | nil => rfl
  | cons k ks ih =>
      rw [hitsFrom, Chunk.found_cons, List.map_append, ih]
      cases k.marked <;> rfl

theorem le_start_of_mem_hitsFrom {pos : Nat} {ks : List Chunk} {h : Hit}
    (hmem : h ∈ sh.hitsFrom pos ks) : pos ≤ h.start := by
  induction ks generalizing pos with
  | nil => cases hmem
  | cons k ks ih =>
      rw [hitsFrom, List.mem_append] at hmem
      rcases hmem with hmem | hmem
      · split at hmem
        · rw [List.mem_singleton.mp hmem]
        · cases hmem
      · exact Nat.le_trans (Nat.le_add_right ..) (ih hmem)

/-- One scan takes its tokens one behind the other. -/
theorem pairwise_hitsFrom (pos : Nat) (ks : List Chunk) :
    (sh.hitsFrom pos ks).Pairwise Hit.Apart := by
  induction ks generalizing pos with
  | nil => exact .nil
  | cons k ks ih =>
      rw [hitsFrom]
      split
      · exact List.pairwise_cons.mpr
          ⟨fun h hmem => .inl (le_start_of_mem_hitsFrom hmem), ih _⟩
      · exact ih _

/-- A token that is taken stands in the text and is read there. -/
theorem exists_of_mem_hitsFrom {pos : Nat} {s : Text} {h : Hit}
    (hmem : h ∈ sh.hitsFrom pos (sh.chunks s)) :
    h.shape = sh ∧ sh.Accepts h.text ∧
      ∃ a b, s = a ++ (h.text ++ b) ∧ h.start = pos + a.length ∧
        sh.after? (h.text ++ b) = some b := by
  induction s using sh.scan_induction generalizing pos with
  | nil => cases hmem
  | char c s hnone ih =>
      rw [chunks_cons_of_none hnone, hitsFrom] at hmem
      obtain ⟨hshape, hacc, a, b, rfl, hstart, hread⟩ := ih hmem
      exact ⟨hshape, hacc, c :: a, b, rfl, by rw [hstart, Nat.add_right_comm]; rfl, hread⟩
  | token t u hacc hafter ih =>
      obtain ⟨m, tail, ht, -⟩ := hacc.exists_mark
      rw [chunks_append_of_some (ht ▸ List.cons_ne_nil m tail) hafter, hitsFrom, if_pos rfl,
        List.singleton_append, List.mem_cons] at hmem
      rcases hmem with rfl | hmem
      · exact ⟨rfl, hacc, [], u, rfl, rfl, hafter⟩
      · obtain ⟨hshape, hacc', a, b, rfl, hstart, hread⟩ := ih hmem
        refine ⟨hshape, hacc', t ++ a, b, by rw [List.append_assoc], ?_, hread⟩
        rw [hstart, List.length_append, Nat.add_assoc]

end Shape

variable {s : Text}

theorem exists_of_mem_hits {h : Hit} (hmem : h ∈ hits s) :
    h.shape.Accepts h.text ∧
      ∃ a b, s = a ++ (h.text ++ b) ∧ h.start = a.length ∧
        h.shape.after? (h.text ++ b) = some b := by
  obtain ⟨sh, -, hmem⟩ := List.mem_flatMap.mp hmem
  obtain ⟨rfl, hacc, a, b, hs, hstart, hread⟩ := Shape.exists_of_mem_hitsFrom hmem
  exact ⟨hacc, a, b, hs, hstart.trans (Nat.zero_add _), hread⟩

/-- What is taken is what is returned. -/
theorem ordered_perm_hits (s : Text) : (ordered s).Perm ((hits s).map Hit.text) := by
  have htagged : (tagged s).map Prod.snd = (hits s).map Hit.text := by
    rw [tagged, hits, List.map_flatMap, List.map_flatMap]
    refine List.flatMap_congr fun sh _ => ?_
    rw [Shape.hits, Shape.map_text_hitsFrom, List.map_map]
    exact List.map_id' _
  rw [ordered_eq_map, ← htagged]
  exact (sortBy_perm _ _).map _

namespace Hit

variable {a b : Hit}

/-- Tokens of two shapes do not begin in the same place. -/
theorem shape_eq (ha : a ∈ hits s) (hb : b ∈ hits s) (h : a.start = b.start) :
    a.shape = b.shape := by
  obtain ⟨-, x, u, hsx, hax, hread⟩ := exists_of_mem_hits ha
  obtain ⟨-, y, v, hsy, hby, hread'⟩ := exists_of_mem_hits hb
  obtain ⟨-, hsame⟩ := List.append_inj (hsx.symm.trans hsy) (by rw [← hax, ← hby, h])
  rw [← hsame] at hread'
  have hlead := Shape.lead?_of_after? (Option.isSome_of_eq_some hread)
  rw [Shape.lead?_of_after? (Option.isSome_of_eq_some hread')] at hlead
  exact (Option.some.inj hlead).symm

/-- A token that begins inside another one begins in its hidden part. -/
theorem hides_of_lt (ha : a ∈ hits s) (hb : b ∈ hits s) (hlt : a.start < b.start)
    (hstop : b.start < a.stop) : a.Hides b := by
  obtain ⟨hacc, x, u, hsx, hax, -⟩ := exists_of_mem_hits ha
  obtain ⟨hacc', y, v, hsy, hby, -⟩ := exists_of_mem_hits hb
  obtain ⟨m, tail, htext, hm⟩ := hacc'.exists_mark
  rw [hax, hby] at hlt
  rw [stop, hax, hby] at hstop
  have hsame := hsx.symm.trans hsy
  rcases List.append_eq_append_iff.mp hsame with ⟨z, rfl, hz⟩ | ⟨z, rfl, -⟩
  · rw [List.length_append] at hlt hstop
    have hne : z ≠ [] := List.ne_nil_of_length_pos (by omega)
    -- the mark of the second token stands in the first
    obtain ⟨w, hw⟩ : ∃ w, a.text = z ++ m :: w := by
      rcases List.append_eq_append_iff.mp hz with ⟨w, rfl, -⟩ | ⟨w, hw, hu⟩
      · rw [List.length_append] at hstop
        omega
      · cases w with
        | nil =>
            rw [hw, List.append_nil] at hstop
            omega
        | cons m' w =>
            rw [htext, List.cons_append, List.cons_append] at hu
            exact ⟨w, by rw [hw, (List.cons.inj hu).1]⟩
    obtain ⟨hlo, hhi⟩ := hacc.hidden_of_mark hw hm hne
    rw [Hides, hax, hby, List.length_append]
    omega
  · rw [List.length_append] at hlt
    omega

theorem not_hides_self (a : Hit) : ¬a.Hides a := by
  rintro ⟨hlo, hhi⟩
  have hopening : a.shape.opening = [] := List.eq_nil_of_length_eq_zero (by omega)
  rw [Shape.hidden_eq_nil hopening, hopening, List.length_nil] at hhi
  omega

theorem not_apart_of_hides (ha : a ∈ hits s) (hb : b ∈ hits s) (h : a.Hides b) :
    ¬a.Apart b := by
  obtain ⟨hacc, -⟩ := exists_of_mem_hits ha
  obtain ⟨hacc', -⟩ := exists_of_mem_hits hb
  obtain ⟨m, tail, htext, -⟩ := hacc'.exists_mark
  obtain ⟨hlo, hhi⟩ := h
  have hne : a.shape.hidden a.text ≠ [] := List.ne_nil_of_length_pos (by omega)
  have hin := hacc.length_hidden_le hne
  have hpos : 0 < b.text.length := htext ▸ Nat.succ_pos _
  simp only [Apart, stop]
  omega

end Hit

/-! ## Tokens that are apart -/

/-- Hits that are apart from each other and stop inside a text are no longer than the text. -/
theorem length_flatten_le_of_apart {hs : List Hit} {n : Nat} (hp : hs.Pairwise Hit.Apart)
    (hstop : ∀ h ∈ hs, h.stop ≤ n) : (hs.map Hit.text).flatten.length ≤ n := by
  -- no offset is taken twice
  let offsets := hs.flatMap fun h => List.range' h.start h.text.length
  have hlen : (hs.map Hit.text).flatten.length = offsets.length := by
    rw [List.length_flatten, List.length_flatMap, List.map_map]
    exact congrArg List.sum (List.map_congr_left fun h _ => List.length_range'.symm)
  have hnodup : offsets.Nodup := by
    refine List.nodup_flatMap.mpr ⟨fun h _ => List.nodup_range', hp.imp fun {a b} hab => ?_⟩
    intro i hia hib
    rw [List.mem_range'_1] at hia hib
    simp only [Hit.Apart, Hit.stop] at hab
    omega
  have hsub : offsets ⊆ List.range n := by
    intro i hi
    obtain ⟨h, hmem, hi⟩ := List.mem_flatMap.mp hi
    have := hstop h hmem
    rw [List.mem_range'_1] at hi
    rw [Hit.stop] at this
    exact List.mem_range.mpr (by omega)
  rw [hlen]
  simpa using (List.subperm_of_subset hnodup hsub).length_le

/-- If no token begins in what another hides, the tokens are apart from each other. -/
theorem pairwise_apart_hits (h : ∀ a ∈ hits s, ∀ b ∈ hits s, ¬a.Hides b) :
    (hits s).Pairwise Hit.Apart := by
  have hshapes : Shape.all.Pairwise (· ≠ ·) := by decide
  refine List.pairwise_flatMap.mpr ⟨fun sh _ => Shape.pairwise_hitsFrom 0 _, ?_⟩
  refine hshapes.imp_of_mem fun {sh sh'} hsh hsh' hne a ha b hb => ?_
  have hmem : ∀ {sh : Shape} {x : Hit}, sh ∈ Shape.all → x ∈ sh.hits s → x ∈ hits s :=
    fun hsh hx => List.mem_flatMap.mpr ⟨_, hsh, hx⟩
  have ha' := hmem hsh ha
  have hb' := hmem hsh' hb
  have hstart : a.start ≠ b.start := by
    intro heq
    refine hne ?_
    rw [← (Shape.exists_of_mem_hitsFrom ha).1, ← (Shape.exists_of_mem_hitsFrom hb).1]
    exact Hit.shape_eq ha' hb' heq
  rcases Nat.lt_or_gt_of_ne hstart with hlt | hlt
  · exact .inl (Nat.le_of_not_lt fun hstop => h a ha' b hb' (Hit.hides_of_lt ha' hb' hlt hstop))
  · exact .inr (Nat.le_of_not_lt fun hstop => h b hb' a ha' (Hit.hides_of_lt hb' ha' hlt hstop))

theorem slice_of_mem_hits {h : Hit} (hmem : h ∈ hits s) :
    Text.slice h.start h.stop s = h.text := by
  obtain ⟨-, a, b, hs, hstart, -⟩ := exists_of_mem_hits hmem
  rw [Hit.stop, hstart, hs, Text.slice, List.take_length_add_append, List.take_left,
    List.drop_left]

theorem stop_le_of_mem_hits {h : Hit} (hmem : h ∈ hits s) : h.stop ≤ s.length := by
  obtain ⟨-, a, b, hs, hstart, -⟩ := exists_of_mem_hits hmem
  rw [Hit.stop, hstart, hs, List.length_append, List.length_append]
  omega

/-- The tokens that are returned are stretches of the text, and these are apart from each other,
and no longer than the text together, exactly if no token begins in what another one hides. -/
theorem hits_apart_iff (s : Text) :
    (ordered s).Perm ((hits s).map Hit.text) ∧
    (∀ h ∈ hits s, Text.slice h.start h.stop s = h.text) ∧
    ((hits s).Pairwise Hit.Apart ∧ (ordered s).flatten.length ≤ s.length ↔
      ∀ a ∈ hits s, ∀ b ∈ hits s, ¬a.Hides b) := by
  refine ⟨ordered_perm_hits s, fun h hmem => slice_of_mem_hits hmem, ?_, fun h => ?_⟩
  · rintro ⟨hp, -⟩ a ha b hb hides
    have hne : a ≠ b := fun heq => a.not_hides_self (heq ▸ hides)
    exact Hit.not_apart_of_hides ha hb hides (hp.forall ha hb hne)
  · have hp := pairwise_apart_hits h
    refine ⟨hp, ?_⟩
    rw [(ordered_perm_hits s).flatten.length_eq]
    exact length_flatten_le_of_apart hp fun h hmem => stop_le_of_mem_hits hmem

/-- A snooze for a date, as if that were a name. -/
def hiddenDate : Text := "💤<span style=\"display: none\">📅 2024-01-01</span> 2024-01-02".toList

/-- A date in a hidden name is taken on its own and with the snooze. -/
theorem hiddenDate_found_twice :
    ordered hiddenDate = ["📅 2024-01-01".toList, hiddenDate] ∧
      ¬(hits hiddenDate).Pairwise Hit.Apart ∧
      hiddenDate.length < (ordered hiddenDate).flatten.length := by
  decide +kernel

end TaskLine.DateToken
