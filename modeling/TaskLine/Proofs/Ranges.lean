import TaskLine.Proofs.Attributes
import TaskLine.Proofs.Recognition

/-!
# Where the wrappers stand

The scanner cuts a text into chunks. Another way to say what it does goes from offset to offset:
look for the next `<`, go behind the tag that begins there, and if it opens a wrapper, go on from
tag to tag until as many spans were closed as were opened (`rangesFrom`, `walkOut`). Each round ends
further on in the text, so both loops come to their end, whatever stands in the text, and they find
the ranges of the chunks (`rangesFrom_eq`).

From the loops it is read off that the ranges are sound (`wrapperRanges_sound`): they lie in the
text one behind the other, each begins with a tag that opens a wrapper, and on the way through the
tags of a range the spans are balanced behind the last tag and not before. Only a range that runs to
the end of the text may be left open.
-/

namespace TaskLine

namespace Text

variable {c : Char} {s : Text} {n : Nat}

theorem notMem_of_find?_eq_none (h : find? [c] s = none) : c ∉ s := by
  induction s with
  | nil => exact List.not_mem_nil
  | cons d s ih =>
      rw [find?] at h
      split at h
      · cases h
      · rename_i hd
        have hne : c ≠ d := by
          rintro rfl
          exact hd (by simp [after?])
        exact List.not_mem_cons_of_ne_of_not_mem hne (ih (Option.map_eq_none_iff.mp h))

/-- The first place of a character. -/
theorem exists_of_find?_eq_some (h : find? [c] s = some n) :
    ∃ u v, s = u ++ c :: v ∧ c ∉ u ∧ u.length = n := by
  induction s generalizing n with
  | nil => cases h
  | cons d s ih =>
      rw [find?] at h
      split at h
      · rename_i hd
        have heq : c = d := by
          by_contra hne
          simp [after?, hne] at hd
        exact ⟨[], s, by rw [heq]; rfl, List.not_mem_nil, Option.some.inj h⟩
      · rename_i hd
        have hne : c ≠ d := by
          rintro rfl
          exact hd (by simp [after?])
        obtain ⟨m, hm, rfl⟩ := Option.map_eq_some_iff.mp h
        obtain ⟨u, v, rfl, hu, rfl⟩ := ih hm
        exact ⟨d :: u, v, rfl, List.not_mem_cons_of_ne_of_not_mem hne hu, rfl⟩

end Text

namespace Markup

/-! ## From offset to offset -/

/-- The offset of the first `<` that stands at an offset or behind it. -/
def nextTag? (s : Text) (i : Nat) : Option Nat := Text.findFrom? ['<'] i s

/-- The offset behind the tag that begins at an offset. -/
def tagStop (s : Text) (i : Nat) : Nat := (tagEnd s i + 1).toNat

variable {s : Text} {i lt : Nat}

theorem notMem_of_nextTag?_eq_none (hi : i ≤ s.length) (h : nextTag? s i = none) :
    '<' ∉ s.drop i := by
  rw [nextTag?, Text.findFrom?, if_neg (Nat.not_lt.mpr hi)] at h
  exact Text.notMem_of_find?_eq_none (Option.map_eq_none_iff.mp h)

/-- The text from an offset on, cut at the next `<`. -/
theorem exists_of_nextTag?_eq_some (h : nextTag? s i = some lt) :
    ∃ u cs, s.drop i = u ++ '<' :: cs ∧ '<' ∉ u ∧ lt = i + u.length ∧ s.drop lt = '<' :: cs := by
  rw [nextTag?, Text.findFrom?] at h
  split at h
  · cases h
  · obtain ⟨n, hn, rfl⟩ := Option.map_eq_some_iff.mp h
    obtain ⟨u, cs, hdrop, hu, rfl⟩ := Text.exists_of_find?_eq_some hn
    refine ⟨u, cs, hdrop, hu, Nat.add_comm _ _, ?_⟩
    rw [Nat.add_comm, ← List.drop_drop, hdrop, List.drop_left]

theorem le_of_nextTag?_eq_some (h : nextTag? s i = some lt) : i ≤ lt := by
  obtain ⟨u, -, -, -, rfl, -⟩ := exists_of_nextTag?_eq_some h
  exact Nat.le_add_right ..

theorem lt_length_of_nextTag?_eq_some (h : nextTag? s i = some lt) : lt < s.length := by
  obtain ⟨-, cs, -, -, -, hdrop⟩ := exists_of_nextTag?_eq_some h
  by_contra hlt
  rw [List.drop_eq_nil_of_le (Nat.le_of_not_lt hlt)] at hdrop
  cases hdrop

theorem tagStop_eq (h : i < s.length) : tagStop s i = i + tagLength .bare (s.drop i) := by
  rw [tagStop, tagEnd, if_pos h]
  omega

theorem lt_tagStop (h : i < s.length) : i < tagStop s i := by
  rw [tagStop_eq h, List.drop_eq_getElem_cons h]
  have := tagLength_pos .bare s[i] (s.drop (i + 1))
  omega

theorem tagStop_le (h : i < s.length) : tagStop s i ≤ s.length := by
  have := tagLength_le .bare (s.drop i)
  rw [List.length_drop] at this
  rw [tagStop_eq h]
  omega

/-- Where a wrapper ends that is open `depth` spans deep at the offset `i`. -/
def walkOut (s : Text) (depth i : Nat) : Nat :=
  if i < s.length ∧ 0 < depth then
    match _h : nextTag? s i with
    | none => s.length
    | some lt => walkOut s (depthAfter depth (s.drop lt)) (tagStop s lt)
  else i
termination_by s.length - i
decreasing_by
  have hi := le_of_nextTag?_eq_some _h
  have hlt := lt_tagStop (lt_length_of_nextTag?_eq_some _h)
  omega

theorem le_walkOut (s : Text) (depth i : Nat) : i ≤ walkOut s depth i := by
  fun_induction walkOut s depth i with
  | case1 depth i hin => exact Nat.le_of_lt hin.1
  | case2 depth i _ lt h ih =>
      have hi := le_of_nextTag?_eq_some h
      have hlt := lt_tagStop (lt_length_of_nextTag?_eq_some h)
      omega
  | case3 => exact Nat.le_refl _

theorem walkOut_le (depth : Nat) (hi : i ≤ s.length) : walkOut s depth i ≤ s.length := by
  fun_induction walkOut s depth i with
  | case1 => exact Nat.le_refl _
  | case2 depth i hin lt h ih => exact ih (tagStop_le (lt_length_of_nextTag?_eq_some h))
  | case3 => exact hi

/-- Whether the tag that begins at an offset opens a wrapper. -/
def opensAt (s : Text) (i : Nat) : Bool :=
  beginsSpan (s.drop i) && carriesKey (Text.slice i (tagStop s i) s)

/-- The ranges of the wrappers that begin at the offset `i` or behind it. -/
def rangesFrom (s : Text) (i : Nat) : List (Nat × Nat) :=
  match _h : nextTag? s i with
  | none => []
  | some lt =>
    if opensAt s lt then
      (lt, walkOut s 1 (tagStop s lt)) :: rangesFrom s (walkOut s 1 (tagStop s lt))
    else rangesFrom s (tagStop s lt)
termination_by s.length - i
decreasing_by
  all_goals
    have hi := le_of_nextTag?_eq_some _h
    have hlt := lt_tagStop (lt_length_of_nextTag?_eq_some _h)
    have hin := lt_length_of_nextTag?_eq_some _h
    have hout := le_walkOut s 1 (tagStop s lt)
    omega

/-! ## The same wrappers -/

theorem bodyLength_zero (s : Text) : bodyLength 0 0 s = 0 := by
  cases s <;> rfl

/-- A tag in the body of a wrapper is passed over as a whole. -/
theorem bodyLength_lt (d : Nat) (cs : Text) :
    bodyLength (d + 1) 0 ('<' :: cs) =
      tagLength .bare ('<' :: cs) + bodyLength (depthAfter (d + 1) ('<' :: cs)) 0
        (('<' :: cs).drop (tagLength .bare ('<' :: cs))) := by
  have hle := tagLength_le .bare ('<' :: cs)
  obtain ⟨n, hn⟩ : ∃ n, tagLength .bare ('<' :: cs) = n + 1 :=
    ⟨_, (Nat.sub_add_cancel (tagLength_pos .bare '<' cs)).symm⟩
  rw [hn, List.length_cons, Nat.add_le_add_iff_right] at hle
  have hskip := bodyLength_skip (depthAfter (d + 1) ('<' :: cs)) (cs.take n) (cs.drop n)
  rw [List.length_take_of_le hle, List.take_append_drop] at hskip
  rw [bodyLength, if_pos rfl, hn, Nat.add_sub_cancel, hskip, List.drop_succ_cons]
  omega

/-- The walk through the tags ends where the body of the wrapper does. -/
theorem walkOut_eq (depth : Nat) (hi : i ≤ s.length) :
    walkOut s depth i = i + bodyLength depth 0 (s.drop i) := by
  fun_induction walkOut s depth i with
  | case1 depth i hin h =>
      obtain ⟨d, rfl⟩ := Nat.exists_eq_add_one_of_ne_zero (Nat.pos_iff_ne_zero.mp hin.2)
      have htext := bodyLength_text d (notMem_of_nextTag?_eq_none hi h) []
      rw [List.append_nil, List.length_drop, bodyLength] at htext
      rw [htext]
      omega
  | case2 depth i hin lt h ih =>
      obtain ⟨d, rfl⟩ := Nat.exists_eq_add_one_of_ne_zero (Nat.pos_iff_ne_zero.mp hin.2)
      have hlt := lt_length_of_nextTag?_eq_some h
      obtain ⟨u, cs, hdrop, hu, hsum, htag⟩ := exists_of_nextTag?_eq_some h
      rw [ih (tagStop_le hlt), tagStop_eq hlt, ← List.drop_drop, htag, hdrop, bodyLength_text d hu,
        bodyLength_lt, hsum]
      omega
  | case3 depth i hin =>
      rcases Nat.lt_or_ge i s.length with hlt | hge
      · obtain rfl : depth = 0 := by
          by_contra hdepth
          exact hin ⟨hlt, Nat.pos_of_ne_zero hdepth⟩
        rw [bodyLength_zero, Nat.add_zero]
      · rw [List.drop_eq_nil_of_le hge, bodyLength, Nat.add_zero]

/-- No wrapper begins in a text without a `<`. -/
theorem ranges_text {u : Text} (hu : '<' ∉ u) (pos : Nat) (v : Text) :
    Chunk.ranges pos (chunks (u ++ v)) = Chunk.ranges (pos + u.length) (chunks v) := by
  induction u generalizing pos with
  | nil => rfl
  | cons c u ih =>
      obtain ⟨hc, hu⟩ := List.ne_and_not_mem_of_not_mem_cons hu
      rw [List.cons_append, chunks_cons_of_ne (Ne.symm hc), Chunk.ranges]
      simp only [Bool.false_eq_true, if_false, List.length_singleton]
      rw [ih hu, List.length_cons, Nat.add_assoc, Nat.add_comm 1]

/-- The chunk that begins with a tag, by offsets. -/
theorem ranges_tag (hlt : lt < s.length) {cs : Text} (hdrop : s.drop lt = '<' :: cs) :
    Chunk.ranges lt (chunks (s.drop lt)) =
      if opensAt s lt then
        (lt, walkOut s 1 (tagStop s lt)) ::
          Chunk.ranges (walkOut s 1 (tagStop s lt)) (chunks (s.drop (walkOut s 1 (tagStop s lt))))
      else Chunk.ranges (tagStop s lt) (chunks (s.drop (tagStop s lt))) := by
  have hstop := tagStop_eq hlt
  have hle := tagStop_le hlt
  have hout := walkOut_eq 1 hle
  have houtle := walkOut_le 1 hle
  have hpos := tagLength_pos .bare '<' cs
  have hlength := congrArg List.length hdrop
  have hslice :
      Text.slice lt (tagStop s lt) s = (s.drop lt).take (tagLength .bare (s.drop lt)) := by
    rw [Text.slice, hstop, List.drop_take, Nat.add_sub_cancel_left]
  have hbehind : ∀ n, s.drop (lt + (n + 1)) = cs.drop n := fun n => by
    rw [← List.drop_drop, hdrop, List.drop_succ_cons]
  have hmark : (beginsSpan ('<' :: cs) &&
      carriesKey (('<' :: cs).take (tagLength .bare ('<' :: cs)))) = opensAt s lt := by
    rw [opensAt, hslice, hdrop]
  obtain ⟨n, hn⟩ : ∃ n, tagLength .bare ('<' :: cs) = n + 1 := ⟨_, (Nat.sub_add_cancel hpos).symm⟩
  rw [hdrop, hn] at hstop
  rw [List.length_drop, List.length_cons] at hlength
  rw [hn] at hmark
  rw [hstop] at hle hout houtle ⊢
  rw [hbehind] at hout ⊢
  rw [hdrop, chunks_cons]
  simp only [readWrapper, if_true, hn, hmark, Nat.add_sub_cancel, List.drop_succ_cons]
  cases opensAt s lt with
  | true =>
      have hsum : lt + (n + 1) + bodyLength 1 0 (cs.drop n) =
          lt + (n + bodyLength 1 0 (cs.drop n) + 1) := by omega
      rw [hsum] at hout
      have hstopped : lt + ('<' :: cs.take (n + bodyLength 1 0 (cs.drop n))).length =
          walkOut s 1 (lt + (n + 1)) := by
        rw [List.length_cons, List.length_take_of_le (by omega), hout]
      simp only [if_true, Chunk.ranges]
      rw [hstopped, hout, hbehind]
  | false =>
      simp only [Bool.false_eq_true, if_false, Chunk.ranges]
      rw [List.length_cons, List.length_take_of_le (by omega)]

/-- The loops find the ranges of the chunks that are marked. -/
theorem rangesFrom_eq (hi : i ≤ s.length) :
    rangesFrom s i = Chunk.ranges i (chunks (s.drop i)) := by
  fun_induction rangesFrom s i with
  | case1 i h =>
      have htext := ranges_text (notMem_of_nextTag?_eq_none hi h) i []
      rw [List.append_nil] at htext
      rw [htext]
      rfl
  | case2 i lt h hopens ih =>
      have hlt := lt_length_of_nextTag?_eq_some h
      obtain ⟨u, cs, hdrop, hu, hsum, htag⟩ := exists_of_nextTag?_eq_some h
      rw [ih (walkOut_le 1 (tagStop_le hlt)), hdrop, ranges_text hu, ← hsum, ← htag,
        ranges_tag hlt htag, if_pos hopens]
  | case3 i lt h hopens ih =>
      have hlt := lt_length_of_nextTag?_eq_some h
      obtain ⟨u, cs, hdrop, hu, hsum, htag⟩ := exists_of_nextTag?_eq_some h
      rw [ih (tagStop_le hlt), hdrop, ranges_text hu, ← hsum, ← htag, ranges_tag hlt htag,
        if_neg hopens]

/-! ## The tags of a range -/

/-- The offsets at which tags begin, from the offset `i` on and before `stop`, going from tag to
tag. -/
def tagStarts (s : Text) (stop i : Nat) : List Nat :=
  match _h : nextTag? s i with
  | none => []
  | some lt => if lt < stop then lt :: tagStarts s stop (tagStop s lt) else []
termination_by s.length - i
decreasing_by
  have hi := le_of_nextTag?_eq_some _h
  have hlt := lt_tagStop (lt_length_of_nextTag?_eq_some _h)
  have hin := lt_length_of_nextTag?_eq_some _h
  omega

/-- How many more spans are opened than closed by the tags that begin at these offsets. -/
def depthOver (s : Text) (starts : List Nat) : Int :=
  (starts.countP fun i => beginsSpan (s.drop i) : Nat) -
    (starts.countP fun i => beginsSpanEnd (s.drop i) : Nat)

theorem tagStarts_eq_cons {stop : Nat} (h : nextTag? s i = some lt) (hstop : lt < stop) :
    tagStarts s stop i = lt :: tagStarts s stop (tagStop s lt) := by
  rw [tagStarts]
  split
  · rename_i hnone
    rw [h] at hnone
    cases hnone
  · rename_i lt' hsome
    obtain rfl := Option.some.inj (h.symm.trans hsome)
    rw [if_pos hstop]

/-- No tag begins between an offset and itself. -/
theorem tagStarts_self (s : Text) (i : Nat) : tagStarts s i i = [] := by
  rw [tagStarts]
  split
  · rfl
  · rename_i lt h
    rw [if_neg (Nat.not_lt.mpr (le_of_nextTag?_eq_some h))]

theorem depthOver_nil (s : Text) : depthOver s [] = 0 := rfl

theorem depthOver_cons (s : Text) (i : Nat) (starts : List Nat) :
    depthOver s (i :: starts) = depthOver s [i] + depthOver s starts := by
  simp only [depthOver, List.countP_cons, List.countP_nil]
  omega

theorem beginsSpanEnd_of_beginsSpan {t : Text} (h : beginsSpan t = true) :
    beginsSpanEnd t = false := by
  match t with
  | [] => rfl
  | [c] => exact Bool.and_false _
  | c :: d :: t =>
      have hopen : (decide (Text.lowerAscii c = '<') && (decide (Text.lowerAscii d = 's') &&
          Text.beginsLower "pan".toList t)) = true := h
      have hd : Text.lowerAscii d = 's' := by
        simp only [Bool.and_eq_true, decide_eq_true_eq] at hopen
        exact hopen.2.1
      show (decide (Text.lowerAscii c = '<') && (decide (Text.lowerAscii d = '/') && _)) = false
      simp [hd]

/-- A tag changes the depth by what it opens and closes. -/
theorem depthAfter_eq {depth : Nat} (hdepth : 0 < depth) (s : Text) (i : Nat) :
    (depthAfter depth (s.drop i) : Int) = depth + depthOver s [i] := by
  rw [depthAfter, depthOver, List.countP_singleton, List.countP_singleton]
  cases hspan : beginsSpan (s.drop i) with
  | true =>
      rw [beginsSpanEnd_of_beginsSpan hspan]
      simp
  | false =>
      cases beginsSpanEnd (s.drop i) with
      | true => simp; omega
      | false => simp

theorem map_getLast?_cons (f : Nat → Nat) (i : Nat) (starts : List Nat) :
    (i :: starts).getLast?.map f = some ((starts.getLast?.map f).getD (f i)) := by
  rw [List.getLast?_cons]
  cases starts.getLast? <;> rfl

/-- The way out of a wrapper: the depth is positive behind every tag but the last one, and behind
that it is zero and the wrapper ends, or the wrapper runs to the end of the text. -/
theorem walkOut_balanced (depth : Nat) (hi : i ≤ s.length) :
    (∀ n < (tagStarts s (walkOut s depth i) i).length,
        0 < depth + depthOver s ((tagStarts s (walkOut s depth i) i).take n)) ∧
      (depth + depthOver s (tagStarts s (walkOut s depth i) i) = 0 ∧
          walkOut s depth i =
            ((tagStarts s (walkOut s depth i) i).getLast?.map (tagStop s)).getD i ∨
        walkOut s depth i = s.length) := by
  fun_induction walkOut s depth i with
  | case1 depth i hin h =>
      have hnone : tagStarts s s.length i = [] := by
        rw [tagStarts]
        split
        · rfl
        · rename_i hsome
          rw [h] at hsome
          cases hsome
      rw [hnone]
      exact ⟨nofun, .inr rfl⟩
  | case2 depth i hin lt h ih =>
      have hlt := lt_length_of_nextTag?_eq_some h
      have hafter := depthAfter_eq hin.2 s lt
      have hwithin :=
        Nat.lt_of_lt_of_le (lt_tagStop hlt) (le_walkOut s (depthAfter depth (s.drop lt)) _)
      obtain ⟨hinside, hend⟩ := ih (tagStop_le hlt)
      rw [tagStarts_eq_cons h hwithin]
      rw [hafter] at hinside hend
      refine ⟨fun n hn => ?_, ?_⟩
      · cases n with
        | zero =>
            rw [List.take_zero, depthOver_nil]
            omega
        | succ n =>
            rw [List.take_succ_cons, depthOver_cons, ← Int.add_assoc]
            exact hinside n (Nat.lt_of_succ_lt_succ hn)
      · rw [depthOver_cons, ← Int.add_assoc, map_getLast?_cons]
        exact hend
  | case3 depth i hin =>
      rw [tagStarts_self]
      refine ⟨nofun, ?_⟩
      rcases Nat.lt_or_ge i s.length with hlt | hge
      · refine .inl ⟨?_, rfl⟩
        rw [depthOver_nil]
        omega
      · exact .inr (Nat.le_antisymm hi hge)

/-! ## The ranges are sound -/

/-- A range of a text is that of a wrapper. -/
structure SoundRange (s : Text) (r : Nat × Nat) : Prop where
  nonempty : r.1 < r.2
  within : r.2 ≤ s.length
  /-- It begins with an opening `span` tag. -/
  opens : beginsSpan (s.drop r.1) = true
  /-- The key attribute stands in this tag. -/
  key : KeyStands (Text.slice r.1 (tagStop s r.1) s)
  /-- That tag is the first one of the range. -/
  first : (tagStarts s r.2 r.1).head? = some r.1
  /-- Behind each tag but the last one a span is open. -/
  inside : ∀ n, 0 < n → n < (tagStarts s r.2 r.1).length →
    0 < depthOver s ((tagStarts s r.2 r.1).take n)
  /-- Behind the last tag no span is open and the range ends, or it ends where the text does. -/
  closed_or : depthOver s (tagStarts s r.2 r.1) = 0 ∧
      (tagStarts s r.2 r.1).getLast?.map (tagStop s) = some r.2 ∨
    r.2 = s.length

theorem soundRange_walkOut (h : nextTag? s i = some lt) (hopens : opensAt s lt = true) :
    SoundRange s (lt, walkOut s 1 (tagStop s lt)) := by
  have hlt := lt_length_of_nextTag?_eq_some h
  have hwithin := Nat.lt_of_lt_of_le (lt_tagStop hlt) (le_walkOut s 1 _)
  have hself : nextTag? s lt = some lt := by
    obtain ⟨-, cs, -, -, -, hdrop⟩ := exists_of_nextTag?_eq_some h
    rw [nextTag?, Text.findFrom?, if_neg (Nat.not_lt.mpr (Nat.le_of_lt hlt)), hdrop]
    simp [Text.find?, Text.after?]
  have hstarts := tagStarts_eq_cons hself hwithin
  rw [opensAt, Bool.and_eq_true, carriesKey_iff] at hopens
  have hone : depthOver s [lt] = 1 := by
    rw [depthOver, List.countP_singleton, List.countP_singleton, hopens.1,
      beginsSpanEnd_of_beginsSpan hopens.1]
    rfl
  obtain ⟨hinside, hend⟩ := walkOut_balanced (s := s) 1 (tagStop_le hlt)
  exact {
    nonempty := hwithin
    within := walkOut_le 1 (tagStop_le hlt)
    opens := hopens.1
    key := hopens.2
    first := by rw [hstarts, List.head?_cons]
    inside := fun n hpos hn => by
      rw [hstarts, List.length_cons] at hn
      obtain ⟨m, rfl⟩ := Nat.exists_eq_add_one_of_ne_zero (Nat.pos_iff_ne_zero.mp hpos)
      rw [hstarts, List.take_succ_cons, depthOver_cons, hone]
      exact hinside m (Nat.lt_of_succ_lt_succ hn)
    closed_or := by
      rw [hstarts, depthOver_cons, hone, map_getLast?_cons]
      exact hend.imp_left fun hclosed => ⟨hclosed.1, congrArg some hclosed.2.symm⟩ }

/-- The ranges are sound and lie one behind the other. -/
theorem rangesFrom_sound (s : Text) (i : Nat) :
    (∀ r ∈ rangesFrom s i, i ≤ r.1 ∧ SoundRange s r) ∧
      (rangesFrom s i).Pairwise fun r r' => r.2 ≤ r'.1 := by
  fun_induction rangesFrom s i with
  | case1 => exact ⟨nofun, .nil⟩
  | case2 i lt h hopens ih =>
      have hi := le_of_nextTag?_eq_some h
      have hsound := soundRange_walkOut h hopens
      obtain ⟨hall, hpair⟩ := ih
      refine ⟨List.forall_mem_cons.mpr ⟨⟨hi, hsound⟩, fun r hr => ?_⟩,
        List.pairwise_cons.mpr ⟨fun r hr => (hall r hr).1, hpair⟩⟩
      exact ⟨Nat.le_trans hi (Nat.le_trans (Nat.le_of_lt hsound.nonempty) (hall r hr).1),
        (hall r hr).2⟩
  | case3 i lt h _ ih =>
      have hi := le_of_nextTag?_eq_some h
      have hlt := lt_tagStop (lt_length_of_nextTag?_eq_some h)
      exact ⟨fun r hr => ⟨by have := (ih.1 r hr).1; omega, (ih.1 r hr).2⟩, ih.2⟩

/-- Whatever a text holds, the scan from offset to offset comes to its end. Its ranges are sound and
lie one behind the other, and at most the last one is left open. -/
theorem wrapperRanges_sound (s : Text) :
    wrapperRanges s = rangesFrom s 0 ∧
    (∀ r ∈ wrapperRanges s, SoundRange s r) ∧
    ((wrapperRanges s).Pairwise fun r r' => r.2 ≤ r'.1) ∧
    ∀ r ∈ (wrapperRanges s).dropLast, depthOver s (tagStarts s r.2 r.1) = 0 := by
  have heq : wrapperRanges s = rangesFrom s 0 := (rangesFrom_eq (Nat.zero_le _)).symm
  obtain ⟨hall, hpair⟩ := rangesFrom_sound s 0
  rw [heq]
  refine ⟨rfl, fun r hr => (hall r hr).2, hpair, fun r hr => ?_⟩
  have hne : rangesFrom s 0 ≠ [] := by
    intro hnil
    rw [hnil] at hr
    cases hr
  -- the last range begins behind this one, so this one does not run to the end of the text
  have hlast := hall _ (List.getLast_mem hne)
  rw [← List.dropLast_append_getLast hne, List.pairwise_append] at hpair
  have hbefore := hpair.2.2 r hr _ (List.mem_singleton_self _)
  have hin := hlast.2.nonempty
  have hwithin := hlast.2.within
  rcases (hall r ((List.dropLast_sublist _).subset hr)).2.closed_or with hclosed | hopen
  · exact hclosed.1
  · omega

end Markup

end TaskLine
