import Mathlib.Data.List.TakeWhile
import TaskLine.Markup.Wrapper
import TaskLine.Proofs.Spacing

/-!
# Scanning in context

The scanner for wrappers reads a text from the left, so what it finds in one
stretch can depend on the stretches before it and behind it. This module says
when it does not.

A stretch *passes* (`Passes`) when it is made of characters other than `<` and
of whole tags that are no wrappers: the scanner comes out of it between tags,
whatever follows. A text is a *closed* wrapper (`Closed`) when the scanner takes
exactly this text off the front of a longer one. Both are prefix properties: a
tag or a wrapper that ends before the end of what was read would have ended
there before any other continuation (`tagLength_append`, `bodyLength_append`).

`Reads` collects what a stretch contributes to the wrappers and to the text
without them. It is closed under appending, so a line is scanned stretch by
stretch.
-/

namespace TaskLine

namespace Chunk

theorem found_cons (k : Chunk) (ks : List Chunk) :
    found (k :: ks) = (if k.marked then [k.text] else []) ++ found ks := by
  unfold found
  cases h : k.marked <;> simp [h]

theorem cleared_cons (k : Chunk) (ks : List Chunk) :
    cleared (k :: ks) = (if k.marked then [' '] else k.text) ++ cleared ks := rfl

theorem found_append (ks ls : List Chunk) : found (ks ++ ls) = found ks ++ found ls := by
  simp [found]

theorem cleared_append (ks ls : List Chunk) :
    cleared (ks ++ ls) = cleared ks ++ cleared ls := by
  simp [cleared]

end Chunk

namespace Markup

/-! ## Tags -/

theorem tagLength_le (q : Quoting) (s : Text) : tagLength q s ≤ s.length := by
  induction s generalizing q with
  | nil => simp [tagLength]
  | cons c s ih =>
      rw [tagLength, List.length_cons]
      split
      · omega
      · exact Nat.succ_le_succ (ih _)

theorem tagLength_pos (q : Quoting) (c : Char) (s : Text) : 0 < tagLength q (c :: s) := by
  rw [tagLength]
  split <;> omega

theorem not_tagLength_nil_append_le {q : Quoting} {v : Text} (hv : v ≠ []) :
    ¬tagLength q ([] ++ v) ≤ ([] : Text).length := by
  obtain ⟨c, cs, rfl⟩ := List.exists_cons_of_ne_nil hv
  exact Nat.not_le.mpr (tagLength_pos q c cs)

/-- A tag that ends before a text does ends there whatever stands behind. -/
theorem tagLength_append {q : Quoting} {s v : Text} (hv : v ≠ [])
    (h : tagLength q (s ++ v) ≤ s.length) (u : Text) :
    tagLength q (s ++ u) = tagLength q (s ++ v) := by
  induction s generalizing q with
  | nil =>
      exact absurd h (not_tagLength_nil_append_le hv)
  | cons c s ih =>
      rw [List.cons_append, tagLength] at h
      rw [List.cons_append, List.cons_append, tagLength, tagLength]
      split
      · rfl
      · rename_i hc
        rw [if_neg hc] at h
        rw [ih (Nat.le_of_succ_le_succ h)]

/-- A tag that ends before a text does has its `>` in it. -/
theorem gt_mem_of_tagLength_le {q : Quoting} {s v : Text} (hv : v ≠ [])
    (h : tagLength q (s ++ v) ≤ s.length) : '>' ∈ s := by
  induction s generalizing q with
  | nil =>
      exact absurd h (not_tagLength_nil_append_le hv)
  | cons c s ih =>
      rw [List.cons_append, tagLength] at h
      split at h
      · rename_i hc
        simp only [Bool.and_eq_true, decide_eq_true_eq] at hc
        rw [hc.2]
        exact List.mem_cons_self
      · exact List.mem_cons_of_mem _ (ih (Nat.le_of_succ_le_succ h))

/-- A tag that ends before a text does ends in its `>`. -/
theorem getElem?_tagLength {q : Quoting} {s : Text} (h : tagLength q s < s.length) :
    s[tagLength q s - 1]? = some '>' := by
  induction s generalizing q with
  | nil => simp at h
  | cons c s ih =>
      rw [tagLength, List.length_cons] at h
      rw [tagLength]
      split
      · rename_i hc
        simp only [Bool.and_eq_true, decide_eq_true_eq] at hc
        simp [hc.2]
      · rename_i hc
        rw [if_neg hc] at h
        have h := Nat.lt_of_succ_lt_succ h
        have ih := ih h
        cases s with
        | nil => simp at h
        | cons d s =>
            have hpos := tagLength_pos (q.next c) d s
            rw [Nat.add_sub_cancel, List.getElem?_cons, if_neg hpos.ne']
            exact ih

/-- How a text with a `>` in it begins is settled before its end. -/
theorem beginsLower_append {p s : Text} (hp : '>' ∉ p) (hs : '>' ∈ s) (u : Text) :
    Text.beginsLower p (s ++ u) = Text.beginsLower p s := by
  induction p generalizing s with
  | nil => simp [Text.beginsLower]
  | cons a p ih =>
      cases s with
      | nil => simp at hs
      | cons c s =>
          simp only [List.cons_append, Text.beginsLower]
          by_cases hc : c = '>'
          · have : Text.lowerAscii c ≠ a := by
              rw [hc, show Text.lowerAscii '>' = '>' from by decide]
              exact fun h => hp (h ▸ List.mem_cons_self)
            simp [this]
          · have hs' : '>' ∈ s := by
              rcases List.mem_cons.mp hs with h | h
              · exact absurd h.symm hc
              · exact h
            rw [ih (fun h => hp (List.mem_cons_of_mem _ h)) hs']

theorem beginsSpan_append {s : Text} (hs : '>' ∈ s) (u : Text) :
    beginsSpan (s ++ u) = beginsSpan s :=
  beginsLower_append (by decide) hs u

theorem beginsSpanEnd_append {s : Text} (hs : '>' ∈ s) (u : Text) :
    beginsSpanEnd (s ++ u) = beginsSpanEnd s :=
  beginsLower_append (by decide) hs u

/-- A tag that ends where the text ends, whatever stands behind. -/
structure WholeTag (t : Text) : Prop where
  begins : ∃ cs, t = '<' :: cs
  ends : ∀ u, tagLength .bare (t ++ u) = t.length

theorem WholeTag.gt_mem {t : Text} (h : WholeTag t) : '>' ∈ t :=
  gt_mem_of_tagLength_le (v := ['x']) (by simp) (Nat.le_of_eq (h.ends _))

theorem WholeTag.getLast?_eq {t : Text} (h : WholeTag t) : t.getLast? = some '>' := by
  obtain ⟨cs, rfl⟩ := h.begins
  have hends := h.ends ['x']
  have hlast := getElem?_tagLength (q := .bare) (s := '<' :: cs ++ ['x']) (by rw [hends]; simp)
  rw [hends, List.getElem?_append_left (by simp)] at hlast
  rw [List.getLast?_eq_getElem?]
  exact hlast

/-! ## The body of a wrapper -/

/-- The characters of a tag that is already counted all belong to the body. -/
theorem min_le_bodyLength (d k : Nat) (s : Text) : min k s.length ≤ bodyLength d k s := by
  induction s generalizing k with
  | nil => simp
  | cons c s ih =>
      cases k with
      | zero => simp
      | succ k =>
          have := ih k
          rw [bodyLength, List.length_cons]
          omega

/-- A body that ends before a text does ends there whatever stands behind. -/
theorem bodyLength_append {d k : Nat} {s v : Text} (hv : v ≠ [])
    (h : bodyLength d k (s ++ v) ≤ s.length) (u : Text) :
    bodyLength d k (s ++ u) = bodyLength d k (s ++ v) := by
  induction s generalizing d k with
  | nil =>
      obtain ⟨c, cs, rfl⟩ := List.exists_cons_of_ne_nil hv
      rw [List.nil_append, List.length_nil] at h
      match d, k with
      | 0, 0 => cases u <;> simp [bodyLength]
      | _, k + 1 => rw [bodyLength] at h; omega
      | d + 1, 0 => rw [bodyLength] at h; split at h <;> omega
  | cons c s ih =>
      rw [List.cons_append] at h ⊢
      rw [List.cons_append]
      match d, k with
      | _, k + 1 =>
          rw [bodyLength] at h ⊢
          rw [bodyLength, ih (Nat.le_of_succ_le_succ h)]
      | 0, 0 => simp [bodyLength]
      | d + 1, 0 =>
          rw [bodyLength] at h ⊢
          rw [bodyLength]
          split
          · rename_i hc
            rw [if_pos hc] at h
            have hbody := Nat.le_of_succ_le_succ h
            -- the tag is skipped as a whole, so it ends inside `c :: s`
            have htag : tagLength .bare (c :: s ++ v) ≤ (c :: s).length := by
              have hmin := min_le_bodyLength (depthAfter (d + 1) (c :: (s ++ v)))
                (tagLength .bare (c :: (s ++ v)) - 1) (s ++ v)
              have hlen : 0 < v.length := List.length_pos_iff.mpr hv
              rw [List.length_append] at hmin
              rw [List.cons_append, List.length_cons]
              omega
            have hgt := gt_mem_of_tagLength_le hv htag
            have hlen := tagLength_append hv htag u
            have hdepth : depthAfter (d + 1) (c :: (s ++ u)) =
                depthAfter (d + 1) (c :: (s ++ v)) := by
              simp only [depthAfter, ← List.cons_append, beginsSpan_append hgt,
                beginsSpanEnd_append hgt]
            rw [List.cons_append, List.cons_append] at hlen
            rw [hlen, hdepth, ih hbody]
          · rename_i hc
            rw [if_neg hc] at h
            rw [ih (Nat.le_of_succ_le_succ h)]

/-- A tag that ends before a text does has its `>` behind its `<`. -/
theorem getElem?_tagLength_pred {s : Text} (h : tagLength .bare ('<' :: s) - 1 < s.length) :
    tagLength .bare ('<' :: s) - 1 ≠ 0 ∧ s[tagLength .bare ('<' :: s) - 1 - 1]? = some '>' := by
  have htag := getElem?_tagLength (q := .bare) (s := '<' :: s) (by rw [List.length_cons]; omega)
  have hlong : tagLength .bare ('<' :: s) - 1 ≠ 0 := by
    intro hzero
    rw [hzero] at htag
    cases htag
  rw [List.getElem?_cons, if_neg hlong] at htag
  exact ⟨hlong, htag⟩

/-- A body that ends before a text does ends in the `>` of a tag, if the tag that was counted
already does. -/
theorem getElem?_bodyLength {d k : Nat} {s : Text} (h : bodyLength d k s < s.length)
    (hstart : d ≠ 0 ∨ k ≠ 0) (hk : k ≠ 0 → s[k - 1]? = some '>') :
    bodyLength d k s ≠ 0 ∧ s[bodyLength d k s - 1]? = some '>' := by
  induction s generalizing d k with
  | nil => simp at h
  | cons c s ih =>
      -- one more character in front of a body that ends in a `>`
      have hcons : ∀ {n}, n ≠ 0 ∧ s[n - 1]? = some '>' →
          n + 1 ≠ 0 ∧ (c :: s)[n + 1 - 1]? = some '>' := by
        rintro n ⟨hn, hend⟩
        refine ⟨Nat.succ_ne_zero n, ?_⟩
        rwa [Nat.add_sub_cancel, List.getElem?_cons, if_neg hn]
      match d, k with
      | d, k + 1 =>
          rw [bodyLength, List.length_cons] at h
          rw [bodyLength]
          have hstarted := hk (Nat.succ_ne_zero _)
          rw [Nat.add_sub_cancel] at hstarted
          by_cases hdone : d = 0 ∧ k = 0
          · obtain ⟨rfl, rfl⟩ := hdone
            have hzero : bodyLength 0 0 s = 0 := by cases s <;> rfl
            rw [hzero]
            exact ⟨Nat.one_ne_zero, hstarted⟩
          · refine hcons (ih (Nat.lt_of_succ_lt_succ h) (by omega) fun hk0 => ?_)
            rwa [List.getElem?_cons, if_neg hk0] at hstarted
      | 0, 0 => simp at hstart
      | d + 1, 0 =>
          rw [bodyLength, List.length_cons] at h
          rw [bodyLength]
          split
          · rename_i hc
            subst hc
            rw [if_pos rfl] at h
            have h := Nat.lt_of_succ_lt_succ h
            have hmin := min_le_bodyLength (depthAfter (d + 1) ('<' :: s))
              (tagLength .bare ('<' :: s) - 1) s
            obtain ⟨hlong, htag⟩ := getElem?_tagLength_pred (s := s) (by omega)
            exact hcons (ih h (.inr hlong) fun _ => htag)
          · rename_i hc
            rw [if_neg hc] at h
            exact hcons (ih (Nat.lt_of_succ_lt_succ h) (.inl (Nat.succ_ne_zero d))
              fun h => absurd rfl h)

/-! ## Chunks -/

theorem chunks_nil : chunks [] = [] := rfl

@[simp] theorem joined_chunks (s : Text) : Chunk.joined (chunks s) = s :=
  Chunk.joined_scan readWrapper s

theorem chunks_cons (c : Char) (cs : Text) :
    chunks (c :: cs) =
      ⟨(readWrapper c cs).1, c :: cs.take (readWrapper c cs).2⟩ ::
        chunks (cs.drop (readWrapper c cs).2) :=
  Chunk.scan_cons readWrapper c cs

theorem chunks_cons_of_ne {c : Char} (hc : c ≠ '<') (cs : Text) :
    chunks (c :: cs) = ⟨false, [c]⟩ :: chunks cs := by
  rw [chunks_cons]
  simp [readWrapper, hc]

/-- Whether a tag opens a wrapper. -/
def opensWrapper (tag : Text) : Bool := beginsSpan tag && carriesKey tag

/-- A whole tag that opens no wrapper is read as one chunk. -/
theorem chunks_tag {t : Text} (ht : WholeTag t) (hkey : opensWrapper t = false) (u : Text) :
    chunks (t ++ u) = ⟨false, t⟩ :: chunks u := by
  have hends := ht.ends u
  have hgt := ht.gt_mem
  obtain ⟨cs, rfl⟩ := ht.begins
  have hread : readWrapper '<' (cs ++ u) = (false, cs.length) := by
    have hnone : (beginsSpan ('<' :: cs) && carriesKey ('<' :: cs)) = false := hkey
    simp only [readWrapper, if_true, ← List.cons_append, hends, beginsSpan_append hgt,
      List.take_left, hnone, Bool.false_eq_true, if_false]
    simp
  rw [List.cons_append, chunks_cons, hread]
  simp

/-! ## What a stretch contributes -/

/-- Whatever follows the stretch, it adds these wrappers to those of the text and leaves this
behind when wrappers are removed. -/
structure Reads (s : Text) (ws : List Text) (bare : Text) : Prop where
  wrappers : ∀ u, wrappers (s ++ u) = ws ++ wrappers u
  remove : ∀ u, removeWrappers (s ++ u) = bare ++ removeWrappers u

theorem Reads.nil : Reads [] [] [] := ⟨fun _ => rfl, fun _ => rfl⟩

theorem Reads.append {s t : Text} {ws vs : List Text} {a b : Text} (hs : Reads s ws a)
    (ht : Reads t vs b) : Reads (s ++ t) (ws ++ vs) (a ++ b) where
  wrappers u := by rw [List.append_assoc, hs.wrappers, ht.wrappers, List.append_assoc]
  remove u := by rw [List.append_assoc, hs.remove, ht.remove, List.append_assoc]

theorem Reads.wrappers_eq {s : Text} {ws : List Text} {a : Text} (h : Reads s ws a) :
    Markup.wrappers s = ws := by
  have := h.wrappers []
  rwa [List.append_nil, show Markup.wrappers [] = [] from rfl, List.append_nil] at this

/-- A stretch that is read as one chunk. -/
theorem Reads.of_chunk {s : Text} {m : Bool}
    (h : ∀ u, chunks (s ++ u) = ⟨m, s⟩ :: chunks u) :
    Reads s (if m then [s] else []) (if m then [' '] else s) where
  wrappers u := by rw [Markup.wrappers, h, Chunk.found_cons]; rfl
  remove u := by rw [removeWrappers, h, Chunk.cleared_cons]; rfl

/-- Text that the scanner passes: characters other than `<`, and whole tags that open no
wrapper. -/
inductive Passes : Text → Prop
  | nil : Passes []
  | char {c : Char} {s : Text} : c ≠ '<' → Passes s → Passes (c :: s)
  | tag {t s : Text} : WholeTag t → opensWrapper t = false → Passes s → Passes (t ++ s)

theorem Passes.append {s t : Text} (hs : Passes s) (ht : Passes t) : Passes (s ++ t) := by
  induction hs with
  | nil => exact ht
  | char hc _ ih => exact .char hc ih
  | tag htag hkey _ ih =>
      rw [List.append_assoc]
      exact .tag htag hkey ih

theorem Passes.of_not_mem {s : Text} (h : '<' ∉ s) : Passes s := by
  induction s with
  | nil => exact .nil
  | cons c s ih =>
      rw [List.mem_cons, not_or] at h
      exact .char (fun hc => h.1 hc.symm) (ih h.2)

theorem Passes.reads {s : Text} (h : Passes s) : Reads s [] s := by
  induction h with
  | nil => exact .nil
  | @char c s hc _ ih =>
      have hone : Reads [c] [] [c] := by
        simpa using Reads.of_chunk (m := false) fun u => chunks_cons_of_ne hc u
      exact hone.append ih
  | @tag t s htag hkey _ ih =>
      have hone : Reads t [] t := by
        simpa using Reads.of_chunk (m := false) fun u => chunks_tag htag hkey u
      exact hone.append ih

/-! ## Closed wrappers -/

/-- The text is one wrapper that ends where the text ends: behind it the scanner finds text
again. -/
def Closed (w : Text) : Prop := wrappers (w ++ ['x']) = [w]

instance (w : Text) : Decidable (Closed w) := inferInstanceAs (Decidable (_ = _))

theorem wrappers_cons (c : Char) (cs : Text) :
    wrappers (c :: cs) =
      (if (readWrapper c cs).1 then [c :: cs.take (readWrapper c cs).2] else []) ++
        wrappers (cs.drop (readWrapper c cs).2) := by
  rw [wrappers, chunks_cons, Chunk.found_cons]
  rfl

theorem wrappers_cons_of_ne {c : Char} (hc : c ≠ '<') (cs : Text) :
    wrappers (c :: cs) = wrappers cs := by
  rw [wrappers, chunks_cons_of_ne hc, Chunk.found_cons]
  rfl

/-- A wrapper begins with a `<` and is a stretch of the text. -/
theorem mem_wrappers {w s : Text} (h : w ∈ wrappers s) : (∃ cs, w = '<' :: cs) ∧ w <:+: s := by
  match s with
  | [] => simp [wrappers, chunks_nil, Chunk.found] at h
  | c :: cs =>
      rw [wrappers_cons, List.mem_append] at h
      rcases h with h | h
      · split at h
        · rename_i hmark
          rw [List.mem_singleton] at h
          subst h
          have hc : c = '<' := by
            by_contra hc
            simp [readWrapper, hc] at hmark
          refine ⟨⟨_, congrArg (· :: _) hc⟩, List.IsPrefix.isInfix ?_⟩
          exact List.cons_prefix_cons.mpr ⟨rfl, List.take_prefix _ _⟩
        · simp at h
      · have ih := mem_wrappers h
        refine ⟨ih.1, ih.2.trans (List.IsSuffix.isInfix ?_)⟩
        exact (List.drop_suffix _ _).trans (List.suffix_cons _ _)
termination_by s.length
decreasing_by rw [List.length_drop, List.length_cons]; omega

/-- A chunk that ends before a text does ends there whatever stands behind. -/
theorem readWrapper_append {c : Char} {cs v : Text} (hv : v ≠ [])
    (h : (readWrapper c (cs ++ v)).2 ≤ cs.length) (u : Text) :
    readWrapper c (cs ++ u) = readWrapper c (cs ++ v) := by
  by_cases hc : c ≠ '<'
  · simp [readWrapper, hc]
  rw [not_not] at hc
  have htag : tagLength .bare (c :: cs ++ v) ≤ (c :: cs).length := by
    rw [List.cons_append, List.length_cons]
    simp only [readWrapper, if_pos hc] at h
    split at h <;> omega
  have hgt := gt_mem_of_tagLength_le hv htag
  have hlen := tagLength_append hv htag u
  have htake : ∀ x : Text, (c :: cs ++ x).take (tagLength .bare (c :: cs ++ v)) =
      (c :: cs).take (tagLength .bare (c :: cs ++ v)) := fun x =>
    List.take_append_of_le_length htag
  have hdrop : ∀ x : Text, (c :: cs ++ x).drop (tagLength .bare (c :: cs ++ v)) =
      (c :: cs).drop (tagLength .bare (c :: cs ++ v)) ++ x := fun x =>
    List.drop_append_of_le_length htag
  simp only [readWrapper, if_pos hc, ← List.cons_append, hlen, htake, hdrop,
    beginsSpan_append hgt] at h ⊢
  split
  · rename_i hkey
    rw [if_pos hkey] at h
    rw [bodyLength_append hv _ u]
    simp only [List.length_drop, List.length_cons] at htag ⊢
    omega
  · rfl

/-- What is found in a text whose first chunk ends in front of what stands behind it, whatever
that is. -/
theorem wrappers_append_of_le {cs v : Text} (hv : v ≠ [])
    (h : (readWrapper '<' (cs ++ v)).2 ≤ cs.length) (u : Text) :
    wrappers ('<' :: (cs ++ u)) =
      (if (readWrapper '<' (cs ++ v)).1 then ['<' :: cs.take (readWrapper '<' (cs ++ v)).2]
        else []) ++ wrappers (cs.drop (readWrapper '<' (cs ++ v)).2 ++ u) := by
  rw [wrappers_cons, readWrapper_append hv h u, List.take_append_of_le_length h,
    List.drop_append_of_le_length h]

theorem Closed.readWrapper_eq {cs : Text} (h : Closed ('<' :: cs)) (u : Text) :
    readWrapper '<' (cs ++ u) = (true, cs.length) := by
  have hfound : wrappers ('<' :: (cs ++ ['x'])) = ['<' :: cs] := h
  have hread : readWrapper '<' (cs ++ ['x']) = (true, cs.length) := by
    rw [wrappers_cons] at hfound
    split at hfound
    · rename_i hmark
      rw [List.singleton_append, List.cons.injEq, List.cons.injEq] at hfound
      have hlen := congrArg List.length hfound.1.2
      rw [List.length_take, List.length_append, List.length_singleton] at hlen
      exact Prod.ext hmark (by omega)
    · -- the wrapper would be found behind the first character, shifted by one
      rw [List.nil_append] at hfound
      have hmem := (mem_wrappers (hfound ▸ List.mem_singleton_self ('<' :: cs))).2
      have hle := hmem.length_le
      rw [List.length_drop, List.length_append, List.length_cons, List.length_singleton] at hle
      have hzero : (readWrapper '<' (cs ++ ['x'])).2 = 0 := by omega
      rw [hzero, List.drop_zero] at hmem
      have heq := congrArg (List.count '<') (hmem.eq_of_length (by simp))
      simp at heq
  rw [readWrapper_append (v := ['x']) (by simp) (by rw [hread]) u, hread]

theorem Closed.chunks_append {w : Text} (h : Closed w) (u : Text) :
    chunks (w ++ u) = ⟨true, w⟩ :: chunks u := by
  obtain ⟨⟨cs, rfl⟩, -⟩ := mem_wrappers (h ▸ List.mem_singleton_self w)
  rw [List.cons_append, chunks_cons, h.readWrapper_eq u]
  simp

theorem Closed.reads {w : Text} (h : Closed w) : Reads w [w] [' '] := by
  simpa using Reads.of_chunk (m := true) h.chunks_append

/-- A chunk that begins with a tag and ends before the text does ends in a `>`. -/
theorem getElem?_readWrapper {cs : Text} (h : (readWrapper '<' cs).2 < cs.length) :
    ('<' :: cs)[(readWrapper '<' cs).2]? = some '>' := by
  have hpos : 0 < tagLength .bare ('<' :: cs) := tagLength_pos _ _ _
  simp only [readWrapper, if_true] at h ⊢
  split
  · rename_i hkey
    rw [if_pos hkey] at h
    -- the chunk ends where the body of the wrapper does
    set n := tagLength .bare ('<' :: cs)
    have hlen : (('<' :: cs).drop n).length = cs.length + 1 - n := by
      rw [List.length_drop, List.length_cons]
    have hbody := getElem?_bodyLength (d := 1) (k := 0) (s := ('<' :: cs).drop n) (by omega)
      (.inl Nat.one_ne_zero) fun h => absurd rfl h
    rw [List.getElem?_drop] at hbody
    have hidx : n + (bodyLength 1 0 (('<' :: cs).drop n) - 1) =
        n - 1 + bodyLength 1 0 (('<' :: cs).drop n) := by
      have := hbody.1
      omega
    rw [← hidx]
    exact hbody.2
  · rename_i hkey
    rw [if_neg hkey] at h
    refine getElem?_tagLength ?_
    rw [List.length_cons]
    omega

/-- A closed wrapper is a text between a `<` and a `>`. -/
theorem Closed.exists_ends {w : Text} (h : Closed w) :
    ∃ cs, w = '<' :: cs ∧ ∃ ds, w = ds ++ ['>'] := by
  obtain ⟨⟨cs, rfl⟩, -⟩ := mem_wrappers (h ▸ List.mem_singleton_self w)
  refine ⟨cs, rfl, ?_⟩
  have hread := h.readWrapper_eq ['x']
  have hlt : (readWrapper '<' (cs ++ ['x'])).2 < (cs ++ ['x']).length := by
    rw [hread]
    simp
  have hend := getElem?_readWrapper hlt
  rw [hread, ← List.cons_append, List.getElem?_append_left (by simp)] at hend
  refine ⟨('<' :: cs).dropLast, ?_⟩
  have hlast : ('<' :: cs).getLast (List.cons_ne_nil _ _) = '>' := by
    rw [List.getLast_eq_getElem]
    obtain ⟨_, hend⟩ := List.getElem?_eq_some_iff.mp hend
    simpa using hend
  rw [← hlast, List.dropLast_concat_getLast]

/-- A tag that is no wrapper is whole, or it takes the rest of the text. -/
theorem wholeTag_of_readWrapper {cs : Text} (h : (readWrapper '<' cs).1 = false) :
    (readWrapper '<' cs).2 = cs.length ∨
      WholeTag ('<' :: cs.take (readWrapper '<' cs).2) ∧
        opensWrapper ('<' :: cs.take (readWrapper '<' cs).2) = false := by
  have hkey : (beginsSpan ('<' :: cs) &&
      carriesKey (('<' :: cs).take (tagLength .bare ('<' :: cs)))) = false := by
    by_contra hkey
    rw [Bool.not_eq_false] at hkey
    simp [readWrapper, hkey] at h
  have hle := tagLength_le .bare ('<' :: cs)
  have hpos := tagLength_pos .bare '<' cs
  simp only [readWrapper, if_true, hkey, Bool.false_eq_true, if_false]
  by_cases hlt : tagLength .bare ('<' :: cs) < ('<' :: cs).length
  · refine .inr ?_
    obtain ⟨n, hn⟩ : ∃ n, tagLength .bare ('<' :: cs) = n + 1 := ⟨_, (Nat.sub_add_cancel hpos).symm⟩
    rw [hn] at hkey hlt
    rw [hn, Nat.add_sub_cancel]
    rw [List.take_succ_cons] at hkey
    rw [List.length_cons, Nat.add_lt_add_iff_right] at hlt
    have hsplit : '<' :: cs = ('<' :: cs.take n) ++ cs.drop n := by simp
    have hv : cs.drop n ≠ [] := by
      rw [ne_eq, List.drop_eq_nil_iff]
      omega
    have hlen : ('<' :: cs.take n).length = n + 1 := by
      rw [List.length_cons, List.length_take]
      omega
    have htag : tagLength .bare (('<' :: cs.take n) ++ cs.drop n) = n + 1 := hsplit ▸ hn
    refine ⟨⟨⟨_, rfl⟩, fun u => ?_⟩, ?_⟩
    · rw [tagLength_append hv (by omega) u, htag, hlen]
    · have hgt := gt_mem_of_tagLength_le hv (Nat.le_of_eq (htag.trans hlen.symm))
      have hspan := beginsSpan_append hgt (cs.drop n)
      rw [← hsplit] at hspan
      rw [opensWrapper, ← hspan]
      exact hkey
  · refine .inl ?_
    rw [List.length_cons] at hle hlt
    omega

/-- A tag that is no wrapper and ends in front of what stands behind a text is passed. -/
theorem Passes.of_readWrapper {cs v : Text} (hv : v ≠ [])
    (hmark : (readWrapper '<' (cs ++ v)).1 = false)
    (hn : (readWrapper '<' (cs ++ v)).2 ≤ cs.length)
    (hrest : Passes (cs.drop (readWrapper '<' (cs ++ v)).2)) : Passes ('<' :: cs) := by
  rcases wholeTag_of_readWrapper hmark with hall | ⟨htag, hkey⟩
  · have hlen := List.length_pos_iff.mpr hv
    rw [hall, List.length_append] at hn
    omega
  · rw [List.take_append_of_le_length hn] at htag hkey
    have hpasses := Passes.tag htag hkey hrest
    rwa [List.cons_append, List.take_append_drop] at hpasses

theorem Closed.firm {w : Text} (h : Closed w) : Text.Firm w := by
  obtain ⟨cs, rfl, ds, heq⟩ := h.exists_ends
  exact Text.firm_of_cons_eq_concat (by decide) (by decide) heq

end Markup

end TaskLine
