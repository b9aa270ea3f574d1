import Mathlib.Data.List.Infix
import TaskLine.Proofs.Scanning

/-!
# Wrappers among texts

A line is a row of wrappers with texts in front, between and behind. Where no `<span` stands in the
texts the scanner should find these wrappers and nothing else. It does exactly if it passes every
text that a wrapper follows (`wrappers_interleaved_iff`): a `<` that is still open at the end of a
text takes the opening tag of the next wrapper for its own, and that wrapper is hidden
(`hidden_behind_lt`).

That the list of wrappers cannot come out right by another way is seen on the `<span`s of a wrapper:
behind its own beginning a wrapper and the text that follows have fewer of them than the wrapper
(`append_ne_shifted`), so it is not found a little further on.
-/

namespace TaskLine.Markup

/-- No `<span` stands in a text, in any letter case. -/
def Spanless (t : Text) : Prop := ∀ s ∈ t.tails, beginsSpan s = false

instance (t : Text) : Decidable (Spanless t) := inferInstanceAs (Decidable (∀ s ∈ t.tails, _))

/-- A text, and behind it texts with a wrapper in front of each. -/
def interleaved (t : Text) (pairs : List (Text × Text)) : Text :=
  t ++ pairs.flatMap fun p => p.1 ++ p.2

/-! ## Where spans begin -/

/-- In how many places of a text a span begins. -/
def spans : Text → Nat
  | [] => 0
  | c :: cs => (beginsSpan (c :: cs)).toNat + spans cs

theorem Spanless.of_suffix {s t : Text} (h : Spanless t) (hs : s <:+ t) : Spanless s :=
  fun x hx => h x ((List.mem_tails ..).mpr (((List.mem_tails ..).mp hx).trans hs))

theorem Spanless.beginsSpan_eq {t : Text} (h : Spanless t) : beginsSpan t = false :=
  h t ((List.mem_tails ..).mpr List.suffix_rfl)

theorem Spanless.spans_eq {t : Text} (h : Spanless t) : spans t = 0 := by
  induction t with
  | nil => rfl
  | cons c t ih =>
      have hrest := h.of_suffix (List.suffix_cons c t)
      rw [spans, h.beginsSpan_eq, ih hrest]
      rfl

theorem beginsLower_append_of_true {p s : Text} (h : Text.beginsLower p s = true) (u : Text) :
    Text.beginsLower p (s ++ u) = true := by
  induction p generalizing s with
  | nil => rfl
  | cons a p ih =>
      cases s with
      | nil => cases h
      | cons c s =>
          simp only [Text.beginsLower, Bool.and_eq_true] at h
          simp only [List.cons_append, Text.beginsLower, h.1, ih h.2, Bool.and_self]

theorem spans_le_append (s u : Text) : spans s ≤ spans (s ++ u) := by
  induction s with
  | nil => exact Nat.zero_le _
  | cons c s ih =>
      rw [List.cons_append, spans, spans]
      refine Nat.add_le_add ?_ ih
      cases hc : beginsSpan (c :: s) with
      | false => exact Nat.zero_le _
      | true =>
          have happend : beginsSpan (c :: (s ++ u)) = true := beginsLower_append_of_true hc u
          rw [happend]

theorem spans_le_prepend (q s : Text) : spans s ≤ spans (q ++ s) := by
  induction q with
  | nil => exact Nat.le_refl _
  | cons c q ih => exact Nat.le_trans ih (Nat.le_add_left ..)

/-- No span begins in one text and goes on in the next if there is a `>` between. -/
theorem spans_append_gt (s u : Text) : spans (s ++ '>' :: u) = spans (s ++ ['>']) + spans u := by
  induction s with
  | nil =>
      show (beginsSpan ('>' :: u)).toNat + spans u = _
      rfl
  | cons c s ih =>
      have hc : beginsSpan (c :: (s ++ ['>']) ++ u) = beginsSpan (c :: (s ++ ['>'])) :=
        beginsSpan_append (by simp) u
      rw [List.cons_append, List.append_assoc, List.singleton_append] at hc
      rw [List.cons_append, List.cons_append, spans, spans, ih, hc, Nat.add_assoc]

theorem spans_append_of_last {s : Text} (h : s.getLast? = some '>') (u : Text) :
    spans (s ++ u) = spans s + spans u := by
  obtain ⟨s, rfl⟩ := List.getLast?_eq_some_iff.mp h
  rw [List.append_assoc, List.singleton_append, spans_append_gt]

theorem eq_lt_of_lowerAscii {c : Char} (h : Text.lowerAscii c = '<') : c = '<' := by
  unfold Text.lowerAscii at h
  split at h
  · rename_i hupper
    have hval : c.toNat = c.val.toNat := rfl
    have hA : ('A' : Char).val.toNat = 65 := rfl
    have hZ : ('Z' : Char).val.toNat = 90 := rfl
    simp only [Char.le_def, UInt32.le_iff_toNat_le] at hupper
    rw [Char.ofNat, dif_pos (.inl (by omega))] at h
    have hnat : c.toNat + 32 = 60 := congrArg Char.toNat h
    omega
  · exact h

/-- No span begins in a text without a `<`. -/
theorem spans_text {s : Text} (h : '<' ∉ s) (u : Text) : spans (s ++ u) = spans u := by
  induction s with
  | nil => rfl
  | cons c s ih =>
      obtain ⟨hc, h⟩ := List.ne_and_not_mem_of_not_mem_cons h
      have hnone : beginsSpan (c :: (s ++ u)) = false := by
        have hfirst : Text.lowerAscii c ≠ '<' := fun h => hc (eq_lt_of_lowerAscii h).symm
        exact (congrArg (· && _) (decide_eq_false hfirst)).trans (Bool.false_and _)
      rw [List.cons_append, spans, hnone, ih h]
      exact Nat.zero_add _

theorem Closed.beginsSpan_eq {w : Text} (h : Closed w) : beginsSpan w = true := by
  obtain ⟨cs, rfl, -⟩ := h.exists_ends
  have hread := h.readWrapper_eq []
  rw [List.append_nil] at hread
  by_contra hspan
  rw [Bool.not_eq_true] at hspan
  simp [readWrapper, hspan] at hread

/-- A wrapper does not stand once more in itself and the text behind. -/
theorem append_ne_shifted {w t q y : Text} (hw : Closed w) (ht : Spanless t) (hq : q ≠ []) :
    w ++ t ≠ q ++ (w ++ y) := by
  intro heq
  have hcount : spans (w ++ t) = spans w := by
    obtain ⟨-, -, ds, rfl⟩ := hw.exists_ends
    rw [List.append_assoc, List.singleton_append, spans_append_gt, ht.spans_eq, Nat.add_zero]
  obtain ⟨c, q, rfl⟩ := List.exists_cons_of_ne_nil hq
  have hfirst : beginsSpan (c :: (q ++ (w ++ y))) = true := by
    rw [← List.cons_append, ← heq]
    exact beginsLower_append_of_true hw.beginsSpan_eq t
  have hrest : spans w ≤ spans (q ++ (w ++ y)) :=
    Nat.le_trans (spans_le_append w y) (spans_le_prepend q _)
  rw [heq, List.cons_append, spans, hfirst, Bool.toNat_true] at hcount
  omega

/-- A text with one span in it, at its beginning, does not overlap with itself. -/
theorem length_le_of_append_eq {w q x y : Text} (hspans : spans w = 1)
    (hbegins : beginsSpan w = true) (hlast : w.getLast? = some '>') (hq : q ≠ [])
    (h : w ++ x = q ++ (w ++ y)) :
    w.length ≤ q.length := by
  rcases List.append_eq_append_iff.mp h with ⟨v, rfl, -⟩ | ⟨v, hw, hv⟩
  · simp
  · -- what of the text stands behind `q` is as long as a span or nothing
    by_contra hlen
    have hne : v ≠ [] := by
      rintro rfl
      rw [List.append_nil] at hw
      exact hlen (hw ▸ Nat.le_refl _)
    have hgt : '>' ∈ v := by
      rw [hw, List.getLast?_append_of_ne_nil _ hne] at hlast
      exact List.mem_of_getLast? hlast
    have hsecond : beginsSpan v = true := by
      rw [← beginsSpan_append hgt x, ← hv]
      exact beginsLower_append_of_true hbegins y
    obtain ⟨d, v, rfl⟩ := List.exists_cons_of_ne_nil hne
    obtain ⟨c, q, rfl⟩ := List.exists_cons_of_ne_nil hq
    have hrest : 1 ≤ spans (q ++ d :: v) := by
      refine Nat.le_trans ?_ (spans_le_prepend q _)
      rw [spans, hsecond]
      exact Nat.le_add_right 1 _
    rw [hw] at hbegins
    rw [hw, List.cons_append, spans, ← List.cons_append, hbegins, Bool.toNat_true] at hspans
    omega

/-- Where such a text stands is told by a part of it that stands nowhere else. -/
theorem eq_of_append_eq {w x z b a c : Text} (hspans : spans w = 1) (hbegins : beginsSpan w = true)
    (hlast : w.getLast? = some '>') (hx : x <:+: w) (hz : ¬x <:+: z) (hb : ¬x <:+: b)
    (h : z ++ (w ++ b) = a ++ (w ++ c)) : a = z := by
  have hpre : ∀ {q y y' : Text}, q ≠ [] → w ++ y = q ++ (w ++ y') → w <+: q := fun hq h =>
    List.prefix_of_prefix_length_le (h ▸ List.prefix_append w _) (List.prefix_append _ _)
      (length_le_of_append_eq hspans hbegins hlast hq h)
  rcases List.append_eq_append_iff.mp h with ⟨q, hq, hw⟩ | ⟨q, hq, hw⟩
  · by_cases hnil : q = []
    · rw [hq, hnil, List.append_nil]
    · obtain ⟨q', rfl⟩ := hpre hnil hw
      rw [List.append_assoc, List.append_cancel_left_eq] at hw
      exact absurd (hx.trans ⟨q', c, by rw [hw, List.append_assoc]⟩) hb
  · by_cases hnil : q = []
    · rw [hq, hnil, List.append_nil]
    · exact absurd (hx.trans ((hpre hnil hw).isInfix.trans ⟨a, [], by simp [hq]⟩)) hz

/-! ## Texts that are not passed -/

/-- How a text begins is settled before a character that does not occur in what is looked for. -/
theorem beginsLower_append_cons {p s : Text} {d : Char} (hd : Text.lowerAscii d = d) (hp : d ∉ p)
    (u : Text) : Text.beginsLower p (s ++ d :: u) = Text.beginsLower p s := by
  induction p generalizing s with
  | nil => cases s <;> rfl
  | cons a p ih =>
      rw [List.mem_cons, not_or] at hp
      cases s with
      | nil => simp [Text.beginsLower, hd, hp.1]
      | cons c s => simp only [List.cons_append, Text.beginsLower, ih hp.2]

theorem beginsSpan_cons_append_lt (s u : Text) :
    beginsSpan ('<' :: (s ++ '<' :: u)) = beginsSpan ('<' :: s) :=
  congrArg (decide (Text.lowerAscii '<' = '<') && ·)
    (beginsLower_append_cons (p := "span".toList) (by decide) (by decide) u)

theorem wrappers_of_spanless {t : Text} (h : Spanless t) : wrappers t = [] := by
  match t with
  | [] => rfl
  | c :: cs =>
      have hmark : (readWrapper c cs).1 = false := by
        simp only [readWrapper, h.beginsSpan_eq]
        split <;> rfl
      rw [wrappers_cons, hmark, if_neg Bool.false_ne_true, List.nil_append]
      refine wrappers_of_spanless (h.of_suffix ?_)
      exact (List.drop_suffix _ _).trans (List.suffix_cons _ _)
termination_by t.length
decreasing_by rw [List.length_drop, List.length_cons]; omega

/-- Behind a text that is not passed the scanner comes out inside of what follows, if anywhere. -/
theorem exists_suffix_of_not_passes {t u : Text} (ht : Spanless t) (hpasses : ¬Passes t) :
    ∃ x, x <:+ '<' :: u ∧ x.length < ('<' :: u).length ∧ wrappers (t ++ '<' :: u) = wrappers x := by
  match t with
  | [] => exact absurd .nil hpasses
  | c :: t =>
      have hbehind : ∀ n, Spanless (t.drop n) := fun n =>
        ht.of_suffix ((List.drop_suffix n t).trans (List.suffix_cons c t))
      by_cases hc : c = '<'
      · subst hc
        have hmark : (readWrapper '<' (t ++ '<' :: u)).1 = false := by
          simp [readWrapper, beginsSpan_cons_append_lt, ht.beginsSpan_eq]
        rw [List.cons_append, wrappers_cons, hmark, if_neg Bool.false_ne_true, List.nil_append]
        by_cases hn : (readWrapper '<' (t ++ '<' :: u)).2 ≤ t.length
        · -- the tag ends inside the text, so what is behind it is not passed either
          have hrest : ¬Passes (t.drop (readWrapper '<' (t ++ '<' :: u)).2) := fun hrest =>
            hpasses (.of_readWrapper (List.cons_ne_nil _ _) hmark hn hrest)
          rw [List.drop_append_of_le_length hn]
          exact exists_suffix_of_not_passes (hbehind _) hrest
        · -- the tag takes at least the `<` of what follows
          rw [Nat.not_le] at hn
          obtain ⟨k, hk⟩ := Nat.exists_eq_add_of_lt hn
          refine ⟨('<' :: u).drop (k + 1), List.drop_suffix _ _, ?_, ?_⟩
          · rw [List.length_drop, List.length_cons]
            omega
          · rw [hk, Nat.add_assoc, List.drop_length_add_append]
      · have hrest : ¬Passes t := fun h => hpasses (.char hc h)
        rw [List.cons_append, wrappers_cons_of_ne hc]
        exact exists_suffix_of_not_passes (hbehind 0) hrest
termination_by t.length
decreasing_by
  · simp only [List.length_drop, List.length_cons]; omega
  · simp

/-! ## All of it -/

theorem exists_of_wrappers_eq_cons {x w : Text} {ws : List Text} (h : wrappers x = w :: ws) :
    ∃ a y, x = a ++ (w ++ y) ∧ wrappers y = ws := by
  match x with
  | [] => cases h
  | c :: cs =>
      rw [wrappers_cons] at h
      split at h
      · obtain ⟨rfl, hrest⟩ := List.cons.inj h
        exact ⟨[], _, by simp, hrest⟩
      · obtain ⟨a, y, hx, hy⟩ := exists_of_wrappers_eq_cons h
        refine ⟨c :: cs.take (readWrapper c cs).2 ++ a, y, ?_, hy⟩
        rw [List.append_assoc, ← hx, List.cons_append, List.take_append_drop]
termination_by x.length
decreasing_by rw [List.length_drop, List.length_cons]; omega

/-- From a place behind the beginning of the first wrapper not all wrappers are found. -/
theorem wrappers_suffix_ne {pairs : List (Text × Text)} {x : Text}
    (hclosed : ∀ p ∈ pairs, Closed p.1) (hspanless : ∀ p ∈ pairs, Spanless p.2)
    (hx : x <:+ interleaved [] pairs) (hlen : x.length < (interleaved [] pairs).length) :
    wrappers x ≠ pairs.map Prod.fst := by
  induction pairs generalizing x with
  | nil => cases hlen
  | cons pair pairs ih =>
      obtain ⟨w, t⟩ := pair
      obtain ⟨hw : Closed w, hclosed⟩ := List.forall_mem_cons.mp hclosed
      obtain ⟨ht : Spanless t, hspanless⟩ := List.forall_mem_cons.mp hspanless
      have hcons : interleaved [] ((w, t) :: pairs) = w ++ t ++ interleaved [] pairs := rfl
      rw [hcons] at hx hlen
      intro hfound
      obtain ⟨a, y, rfl, hy⟩ := exists_of_wrappers_eq_cons hfound
      have hrest : y <:+ w ++ t ++ interleaved [] pairs := by
        refine List.IsSuffix.trans ?_ hx
        rw [← List.append_assoc]
        exact List.suffix_append ..
      by_cases hshort : y.length < (interleaved [] pairs).length
      · have hsuffix := List.suffix_of_suffix_length_le hrest (List.suffix_append ..)
          (Nat.le_of_lt hshort)
        exact ih hclosed hspanless hsuffix hshort hy
      · -- the first wrapper would be found in itself and the text behind it
        rw [Nat.not_lt] at hshort
        obtain ⟨z, rfl⟩ := List.suffix_of_suffix_length_le (List.suffix_append ..) hrest hshort
        obtain ⟨q, hq⟩ := hx
        have hshift : w ++ t = q ++ a ++ (w ++ z) := by
          have hwhole : w ++ t ++ interleaved [] pairs =
              q ++ a ++ (w ++ z) ++ interleaved [] pairs := by
            rw [← hq]
            simp only [List.append_assoc]
          exact List.append_cancel_right hwhole
        refine append_ne_shifted hw ht ?_ hshift
        rintro hnil
        rw [← hq, (List.append_eq_nil_iff.mp hnil).1, List.nil_append] at hlen
        exact Nat.lt_irrefl _ hlen

/-- The wrappers between texts without `<span` are those that the scanner finds exactly if it passes
every text that a wrapper follows. -/
theorem wrappers_interleaved_iff {t : Text} {pairs : List (Text × Text)}
    (hclosed : ∀ p ∈ pairs, Closed p.1) (ht : Spanless t) (hspanless : ∀ p ∈ pairs, Spanless p.2) :
    wrappers (interleaved t pairs) = pairs.map Prod.fst ↔
      ∀ s ∈ (t :: pairs.map Prod.snd).dropLast, Passes s := by
  induction pairs generalizing t with
  | nil =>
      have hnone : wrappers (interleaved t []) = [] := by
        rw [interleaved, List.flatMap_nil, List.append_nil, wrappers_of_spanless ht]
      exact iff_of_true hnone nofun
  | cons pair pairs ih =>
      obtain ⟨w, t'⟩ := pair
      obtain ⟨hw : Closed w, hclosed'⟩ := List.forall_mem_cons.mp hclosed
      obtain ⟨ht' : Spanless t', hspanless'⟩ := List.forall_mem_cons.mp hspanless
      have hcons : interleaved t ((w, t') :: pairs) = t ++ (w ++ interleaved t' pairs) := by
        simp only [interleaved, List.flatMap_cons, List.append_assoc]
      have hlast : (t :: List.map Prod.snd ((w, t') :: pairs)).dropLast =
          t :: (t' :: pairs.map Prod.snd).dropLast := rfl
      rw [hlast, List.forall_mem_cons, ← ih hclosed' ht' hspanless']
      by_cases hpasses : Passes t
      · rw [hcons, hpasses.reads.wrappers, hw.reads.wrappers]
        simp [hpasses]
      · obtain ⟨cs, hcs, -⟩ := hw.exists_ends
        have hbody : interleaved [] ((w, t') :: pairs) = '<' :: (cs ++ interleaved t' pairs) := by
          rw [hcs]
          simp only [interleaved, List.flatMap_cons, List.append_assoc, List.nil_append,
            List.cons_append]
        obtain ⟨x, hx, hlen, heq⟩ := exists_suffix_of_not_passes
          (u := cs ++ interleaved t' pairs) ht hpasses
        rw [hcons, hcs, List.cons_append, heq]
        rw [← hbody] at hx hlen
        exact iff_of_false (hcs ▸ wrappers_suffix_ne hclosed hspanless hx hlen)
          fun h => hpasses h.1

/-- A wrapper that holds one letter. -/
def letterWrapper : Text := "<span data-template-key=\"k\">x</span>".toList

/-- Tags, quotes and even a `</span>` do no harm, nor does an open `<` behind the last wrapper. -/
theorem wrappers_interleaved_tags :
    wrappers (interleaved "a > b, <i>c</i> ".toList
        [(letterWrapper, " 'd' </span> ".toList), (letterWrapper, " e < \"f".toList)]) =
      [letterWrapper, letterWrapper] := by
  have hopen : WholeTag "<i>".toList := ⟨⟨_, rfl⟩, fun _ => rfl⟩
  have hclose : WholeTag "</i>".toList := ⟨⟨_, rfl⟩, fun _ => rfl⟩
  have hspanEnd : WholeTag "</span>".toList := ⟨⟨_, rfl⟩, fun _ => rfl⟩
  have hfirst : Passes "a > b, <i>c</i> ".toList :=
    (Passes.of_not_mem (s := "a > b, ".toList) (by decide)).append
      (.tag hopen (by decide)
        (.char (by decide) (.tag hclose (by decide) (.of_not_mem (by decide)))))
  have hsecond : Passes " 'd' </span> ".toList :=
    (Passes.of_not_mem (s := " 'd' ".toList) (by decide)).append
      (.tag hspanEnd (by decide) (.of_not_mem (by decide)))
  refine (wrappers_interleaved_iff (by decide +kernel) (by decide) (by decide)).mpr ?_
  exact List.forall_mem_cons.mpr ⟨hfirst, List.forall_mem_singleton.mpr hsecond⟩

/-- Behind an open `<` a wrapper is not found. -/
theorem hidden_behind_lt :
    ¬ ∀ (t : Text) (pairs : List (Text × Text)), (∀ p ∈ pairs, Closed p.1) → Spanless t →
      (∀ p ∈ pairs, Spanless p.2) → wrappers (interleaved t pairs) = pairs.map Prod.fst := by
  intro h
  have hfound := h "a < b ".toList [(letterWrapper, [])] (by decide +kernel) (by decide) (by decide)
  have hnone : wrappers (interleaved "a < b ".toList [(letterWrapper, [])]) = [] := by
    decide +kernel
  rw [hnone] at hfound
  cases hfound

end TaskLine.Markup
