import TaskLine.Markup.Template
import TaskLine.Proofs.Clearing

/-!
# Where the scanner comes out

What the scanner has made of a text can be told by a wrapper that is put behind
it. A *landmark* (`landmark`) is a wrapper that is longer than all that stands
around it and has no space in it, so it can only be found in its own place. If
it is found, the scanner has come out of the text in front of it, and what it
has found there does not depend on what follows (`wrappers_of_mem`).
-/

namespace TaskLine.Markup

/-! ## Texts that the scanner passes -/

theorem Passes.of_cons {c : Char} {s : Text} (h : Passes (c :: s)) (hc : c ≠ '<') : Passes s := by
  generalize hcs : c :: s = cs at h
  induction h with
  | nil => cases hcs
  | char _ h _ =>
      obtain ⟨-, rfl⟩ := List.cons.inj hcs
      exact h
  | @tag t s htag _ _ _ =>
      obtain ⟨t, rfl⟩ := htag.begins
      exact absurd (List.cons.inj hcs).1 hc

theorem Passes.of_blank_append {g s : Text} (hg : Text.Blank g) (h : Passes (g ++ s)) :
    Passes s := by
  induction g with
  | nil => exact h
  | cons c g ih =>
      have hc : c ≠ '<' := by
        rintro rfl
        cases hg _ List.mem_cons_self
      exact ih (fun d hd => hg d (List.mem_cons_of_mem _ hd)) (h.of_cons hc)

/-- The end of a text that is passed can be cut off if no tag ends there. -/
theorem Passes.of_append {s z : Text} (h : Passes (s ++ z)) (hz : '>' ∉ z) : Passes s := by
  generalize hsz : s ++ z = x at h
  induction h generalizing s with
  | nil =>
      rw [List.append_eq_nil_iff] at hsz
      rw [hsz.1]
      exact .nil
  | @char c x hc _ ih =>
      cases s with
      | nil => exact .nil
      | cons d s =>
          obtain ⟨rfl, htail⟩ := List.cons.inj hsz
          exact .char hc (ih htail)
  | @tag t x htag hkey _ ih =>
      rcases List.append_eq_append_iff.mp hsz with ⟨a, rfl, hza⟩ | ⟨a, rfl, hxa⟩
      · cases a with
        | nil =>
            have hs := Passes.tag htag hkey .nil
            simpa using hs
        | cons d a =>
            -- the tag would end in what is cut off
            have hlast := htag.getLast?_eq
            rw [List.getLast?_append_cons] at hlast
            refine absurd (List.mem_of_getLast? hlast) fun hmem => hz ?_
            rw [hza]
            exact List.mem_append_left _ hmem
      · exact .tag htag hkey (ih hxa.symm)

/-! ## Landmarks -/

/-- Nowhere behind the end of a tag is this wrapper found. -/
def Singular (w r : Text) : Prop :=
  ∀ a s, ' ' :: (w ++ r) = a ++ '>' :: s → w ∉ wrappers s

/-- A chunk that runs over the space in front of the wrapper hides the wrapper. -/
theorem not_mem_of_runs_over {w r t : Text} (hspace : ' ' ∉ w) (hsingular : Singular w r)
    (hn : t.length < (readWrapper '<' (t ++ ' ' :: (w ++ r))).2) :
    w ∉ wrappers ('<' :: (t ++ ' ' :: (w ++ r))) := by
  have hend : (readWrapper '<' (t ++ ' ' :: (w ++ r))).2 < (t ++ ' ' :: (w ++ r)).length → _ :=
    getElem?_readWrapper
  rw [wrappers_cons]
  generalize (readWrapper '<' (t ++ ' ' :: (w ++ r))).2 = n at hn hend
  obtain ⟨k, rfl⟩ : ∃ k, n = t.length + (k + 1) := ⟨n - t.length - 1, by omega⟩
  have htake : (t ++ ' ' :: (w ++ r)).take (t.length + (k + 1)) = t ++ ' ' :: (w ++ r).take k := by
    rw [List.take_length_add_append, List.take_succ_cons]
  have hdrop : (t ++ ' ' :: (w ++ r)).drop (t.length + (k + 1)) = (w ++ r).drop k := by
    rw [List.drop_length_add_append, List.drop_succ_cons]
  rw [htake, hdrop, List.mem_append]
  rintro (hchunk | hrest)
  · split at hchunk
    · refine hspace ?_
      rw [List.mem_singleton.mp hchunk]
      simp
    · cases hchunk
  · by_cases hlt : t.length + (k + 1) < (t ++ ' ' :: (w ++ r)).length
    · have hend := hend hlt
      rw [← Nat.add_assoc, List.getElem?_cons_succ, List.getElem?_append_right (by omega),
        Nat.add_sub_cancel_left] at hend
      obtain ⟨hk, hgt⟩ := List.getElem?_eq_some_iff.mp hend
      refine hsingular ((' ' :: (w ++ r)).take k) ((w ++ r).drop k) ?_ hrest
      rw [← hgt, ← List.drop_succ_cons (a := ' '), List.getElem_cons_drop, List.take_append_drop]
    · rw [List.drop_eq_nil_of_le] at hrest
      · cases hrest
      · rw [List.length_append, List.length_cons] at hlt
        omega

/-- If a wrapper behind a text is found, the scanner has come out of the text: it has found there
what it finds in the text alone. -/
theorem wrappers_of_mem {w r : Text} (hw : Closed w) (hspace : ' ' ∉ w) (hsingular : Singular w r)
    {t : Text} (hlen : t.length < w.length) (hmem : w ∈ wrappers (t ++ ' ' :: (w ++ r))) :
    wrappers (t ++ ' ' :: (w ++ r)) = wrappers t ++ w :: wrappers r ∧
      (wrappers t = [] → Passes t) := by
  match t with
  | [] =>
      rw [List.nil_append, wrappers_cons_of_ne (by decide), hw.reads.wrappers]
      exact ⟨rfl, fun _ => .nil⟩
  | c :: t =>
      rw [List.length_cons] at hlen
      rw [List.cons_append] at hmem ⊢
      by_cases hc : c = '<'
      · subst hc
        have hv : ' ' :: (w ++ r) ≠ [] := List.cons_ne_nil _ _
        by_cases hn : (readWrapper '<' (t ++ ' ' :: (w ++ r))).2 ≤ t.length
        · -- the chunk ends inside the text
          have hbehind := wrappers_append_of_le hv hn (' ' :: (w ++ r))
          have halone := wrappers_append_of_le hv hn []
          have hpass := @Passes.of_readWrapper t _ hv
          rw [List.append_nil, List.append_nil] at halone
          rw [hbehind] at hmem ⊢
          rw [halone]
          generalize readWrapper '<' (t ++ ' ' :: (w ++ r)) = chunk at hn hmem hpass ⊢
          have hmem' : w ∈ wrappers (t.drop chunk.2 ++ ' ' :: (w ++ r)) := by
            refine (List.mem_append.mp hmem).resolve_left fun hchunk => ?_
            split at hchunk
            · have hlen' := congrArg List.length (List.mem_singleton.mp hchunk)
              rw [List.length_cons, List.length_take] at hlen'
              omega
            · cases hchunk
          have hlen' : (t.drop chunk.2).length < w.length := by
            rw [List.length_drop]
            omega
          obtain ⟨heq, hpasses⟩ := wrappers_of_mem hw hspace hsingular hlen' hmem'
          rw [heq, List.append_assoc]
          refine ⟨rfl, fun hnil => ?_⟩
          rw [List.append_eq_nil_iff] at hnil
          refine hpass ?_ hn (hpasses hnil.2)
          by_contra hmark
          rw [Bool.not_eq_false] at hmark
          simp [hmark] at hnil
        · -- the chunk runs over the space in front of the wrapper
          rw [Nat.not_le] at hn
          exact absurd hmem (not_mem_of_runs_over hspace hsingular hn)
      · rw [wrappers_cons_of_ne hc] at hmem ⊢
        obtain ⟨heq, hpasses⟩ := wrappers_of_mem hw hspace hsingular (by omega) hmem
        rw [heq, wrappers_cons_of_ne hc]
        exact ⟨rfl, fun hnil => .char hc (hpasses hnil)⟩
termination_by t.length
decreasing_by
  · simp only [List.length_drop, List.length_cons]; omega
  · simp

/-- The tag of a landmark. The white space in it is no space. -/
def landmarkTag : Text := "<span\tdata-template-key=\"k\">".toList

/-- A wrapper that holds `n` characters. -/
def landmark (n : Nat) : Text := landmarkTag ++ (List.replicate n 'x' ++ "</span>".toList)

theorem wholeTag_landmarkTag : WholeTag landmarkTag := ⟨⟨_, rfl⟩, fun _ => rfl⟩

theorem bodyLength_landmark (n : Nat) (u : Text) :
    bodyLength 1 0 (List.replicate n 'x' ++ ("</span>".toList ++ u)) = n + 7 := by
  induction n with
  | zero =>
      have hzero : bodyLength 0 0 u = 0 := by cases u <;> rfl
      have hclose : bodyLength 1 0 ("</span>".toList ++ u) = bodyLength 0 0 u + 7 := rfl
      rw [List.replicate_zero, List.nil_append, hclose, hzero]
  | succ n ih =>
      rw [List.replicate_succ, List.cons_append, bodyLength, if_neg (by decide), ih]

theorem readWrapper_landmark (n : Nat) (u : Text) :
    readWrapper '<' (landmarkTag.tail ++ (List.replicate n 'x' ++ ("</span>".toList ++ u))) =
      (true, landmarkTag.length - 1 + (n + 7)) := by
  have hcons : ∀ x : Text, '<' :: (landmarkTag.tail ++ x) = landmarkTag ++ x := fun _ => rfl
  have hkey : ∀ x : Text, (beginsSpan (landmarkTag ++ x) && carriesKey landmarkTag) = true := by
    intro x
    rw [beginsSpan_append wholeTag_landmarkTag.gt_mem]
    decide
  simp only [readWrapper, if_true, hcons, wholeTag_landmarkTag.ends, List.take_left,
    List.drop_left, hkey, bodyLength_landmark]

theorem closed_landmark (n : Nat) : Closed (landmark n) := by
  have hlandmark :
      landmark n = '<' :: (landmarkTag.tail ++ (List.replicate n 'x' ++ "</span>".toList)) := rfl
  have hlen : (landmarkTag.tail ++ (List.replicate n 'x' ++ "</span>".toList)).length =
      landmarkTag.length - 1 + (n + 7) := by
    rw [List.length_append, List.length_append, List.length_replicate, List.length_tail]
    rfl
  have hread := readWrapper_landmark n ['x']
  have hassoc : landmarkTag.tail ++ (List.replicate n 'x' ++ ("</span>".toList ++ ['x'])) =
      landmarkTag.tail ++ (List.replicate n 'x' ++ "</span>".toList) ++ ['x'] := by
    simp only [List.append_assoc]
  rw [hassoc, ← hlen] at hread
  rw [Closed, hlandmark, List.cons_append, wrappers_cons, hread, List.take_left, List.drop_left]
  rfl

theorem space_not_mem_landmark (n : Nat) : ' ' ∉ landmark n := by
  intro hmem
  simp only [landmark, List.mem_append, List.mem_replicate] at hmem
  rcases hmem with hmem | ⟨-, hmem⟩ | hmem
  · exact absurd hmem (by decide)
  · cases hmem
  · exact absurd hmem (by decide)

theorem tidy_landmark (n : Nat) : Text.Tidy (landmark n) := by
  refine Text.Tidy.append (by decide) ?_ (by decide)
  rw [← Text.collapse_of_not_space (s := List.replicate n 'x' ++ "</span>".toList)]
  · exact Text.tidy_collapse _
  · intro c hc
    rcases List.mem_append.mp hc with hc | hc
    · rw [(List.mem_replicate.mp hc).2]
      decide
    · exact (by decide : ∀ d ∈ "</span>".toList, Text.isSpace d = false) c hc

theorem lt_length_landmark (n : Nat) : n < (landmark n).length := by
  have htag : 0 < landmarkTag.length := by decide
  rw [landmark, List.length_append, List.length_append, List.length_replicate]
  omega

theorem place_landmark (n : Nat) : (Template.read (landmark n)).place = .other := by
  have hopen : openingTag (landmark n) = openingTag landmarkTag := by
    have hends := wholeTag_landmarkTag.ends (List.replicate n 'x' ++ "</span>".toList)
    have hends' := wholeTag_landmarkTag.ends []
    rw [List.append_nil] at hends'
    rw [openingTag, openingTag, landmark, hends, hends', List.take_left, List.take_length]
    rfl
  have hkey : (Template.read (landmark n)).key = (Template.read landmarkTag).key := by
    rw [Template.read, Template.read, hopen]
  have horder : (Template.read (landmark n)).order = (Template.read landmarkTag).order := by
    rw [Template.read, Template.read, hopen]
  have hprops : (Template.read (landmark n)).props = (Template.read landmarkTag).props := by
    rw [Template.read, Template.read, hopen]
  have hplace : (Template.read (landmark n)).place = (Template.read landmarkTag).place := by
    rw [Template.place, Template.place, Template.assignType, Template.assignType, hkey, horder,
      hprops]
  rw [hplace]
  decide

theorem suffix_of_append_cons {b x a s : Text} (hb : '>' ∉ b) (h : b ++ '>' :: x = a ++ '>' :: s) :
    s <:+ x := by
  rcases List.append_eq_append_iff.mp h with ⟨c, rfl, hx⟩ | ⟨c, rfl, hs⟩
  · cases c with
    | nil => exact (List.cons.inj hx).2 ▸ List.suffix_rfl
    | cons d c =>
        rw [(List.cons.inj hx).2]
        exact (List.suffix_cons _ _).trans (List.suffix_append _ _)
  · cases c with
    | nil => exact (List.cons.inj hs).2 ▸ List.suffix_rfl
    | cons d c =>
        refine absurd ?_ hb
        rw [← (List.cons.inj hs).1]
        simp

theorem infix_of_replicate {w y : Text} {n : Nat}
    (h : '<' :: w <:+: List.replicate n 'x' ++ y) : '<' :: w <:+: y := by
  induction n with
  | zero => exact h
  | succ n ih =>
      rw [List.replicate_succ, List.cons_append, List.infix_cons_iff] at h
      rcases h with h | h
      · have := (List.cons_prefix_cons.mp h).1
        cases this
      · exact ih h

/-- A long landmark is found in no other place. -/
theorem singular_landmark {n : Nat} {r : Text} (hr : r.length < n) : Singular (landmark n) r := by
  intro a s heq hmem
  -- what stands behind the end of some tag stands behind that of the landmark's
  have hsplit : ' ' :: (landmark n ++ r) = (' ' :: landmarkTag.dropLast) ++
      '>' :: (List.replicate n 'x' ++ ("</span>".toList ++ r)) := by
    have htag : landmarkTag = landmarkTag.dropLast ++ ['>'] := rfl
    rw [landmark]
    conv_lhs => rw [htag]
    simp
  rw [hsplit] at heq
  have hsuffix := suffix_of_append_cons (by decide) heq
  have hmid : landmark n <:+: List.replicate n 'x' ++ ("</span>".toList ++ r) :=
    (mem_wrappers hmem).2.trans hsuffix.isInfix
  have hle := (infix_of_replicate (w := landmarkTag.tail ++ _) hmid).length_le
  have hclose : "</span>".toList.length = 7 := rfl
  have htag : landmarkTag.length = 28 := rfl
  rw [List.length_cons, List.length_append, List.length_append, List.length_append,
    List.length_tail, List.length_replicate, hclose, htag] at hle
  omega

end TaskLine.Markup
