import TaskLine.Proofs.Scanning

/-!
# White space behind a text

A text without wrappers stays one when white space is put behind it
(`wrappers_append_blank_iff`): white space may belong to a tag that is open at the
end of the text, but it never completes the name of a tag or of an attribute.
-/

namespace TaskLine.Markup

open Text (Blank isSpace trimLeft)

theorem tagLength_of_not_mem {q : Quoting} {s : Text} (h : '>' ∉ s) :
    tagLength q s = s.length := by
  induction s generalizing q with
  | nil => rfl
  | cons c s ih =>
      rw [List.mem_cons, not_or] at h
      rw [tagLength, if_neg, ih h.2, List.length_cons]
      simp only [Bool.and_eq_true, decide_eq_true_eq, not_and]
      exact fun _ hc => h.1 hc.symm

/-- White space behind a text belongs to a tag that is open at its end, or to none. -/
theorem tagLength_append_blank {g : Text} (hg : Blank g) (q : Quoting) (s : Text) :
    tagLength q (s ++ g) = tagLength q s ∨
      tagLength q s = s.length ∧ tagLength q (s ++ g) = (s ++ g).length := by
  induction s generalizing q with
  | nil =>
      refine .inr ⟨rfl, tagLength_of_not_mem fun hgt => ?_⟩
      have := hg _ hgt
      cases this
  | cons c s ih =>
      rw [List.cons_append, tagLength, tagLength]
      split
      · exact .inl rfl
      · rcases ih (q.next c) with h | h
        · exact .inl (by rw [h])
        · exact .inr ⟨by rw [h.1, List.length_cons], by rw [h.2, List.length_cons]⟩

theorem lowerAscii_of_isSpace {c : Char} (hc : isSpace c = true) : Text.lowerAscii c = c := by
  rw [Text.lowerAscii, if_neg]
  rintro ⟨hlo, hhi⟩
  simp only [Char.le_def, UInt32.le_iff_toNat_le] at hlo hhi
  simp only [isSpace, Bool.or_eq_true, Bool.and_eq_true, decide_eq_true_eq, beq_iff_eq] at hc
  have hval : c.toNat = c.val.toNat := rfl
  have h₁ : ('A' : Char).val.toNat = 65 := rfl
  have h₂ : ('Z' : Char).val.toNat = 90 := rfl
  omega

theorem foldsTo_of_isSpace {a c : Char} (ha : isSpace a = false) (hc : isSpace c = true) :
    Text.foldsTo a c = false := by
  have hne : c ≠ a := by
    rintro rfl
    rw [hc] at ha
    cases ha
  have hnum : ∀ n, c.toNat = n → n ≠ 0x17F ∧ n ≠ 0x212A := by
    rintro n rfl
    simp only [isSpace, Bool.or_eq_true, Bool.and_eq_true, decide_eq_true_eq, beq_iff_eq] at hc
    omega
  simp [Text.foldsTo, lowerAscii_of_isSpace hc, hne, hnum _ rfl]

theorem afterFold?_append_blank {p g : Text} (hp : ∀ a ∈ p, isSpace a = false) (hg : Blank g)
    (s : Text) : Text.afterFold? p (s ++ g) = (Text.afterFold? p s).map (· ++ g) := by
  induction p generalizing s with
  | nil => cases s <;> cases g <;> rfl
  | cons a p ih =>
      cases s with
      | nil =>
          cases g with
          | nil => rfl
          | cons c g =>
              have hfold := foldsTo_of_isSpace (hp a List.mem_cons_self) (hg c List.mem_cons_self)
              simp [Text.afterFold?, hfold]
      | cons c s =>
          rw [List.cons_append, Text.afterFold?, Text.afterFold?,
            ih fun b hb => hp b (List.mem_cons_of_mem _ hb)]
          split <;> rfl

theorem head?_trimLeft_append_blank {g : Text} (hg : Blank g) (s : Text) :
    (trimLeft (s ++ g)).head? = (trimLeft s).head? := by
  induction s with
  | nil => rw [List.nil_append, Text.trimLeft_blank hg]; rfl
  | cons c s ih =>
      by_cases hc : isSpace c = true
      · have hblank : Blank [c] := Blank.singleton hc
        rw [← List.singleton_append, List.append_assoc, Text.trimLeft_append hblank,
          Text.trimLeft_append hblank, ih]
      · rw [Bool.not_eq_true] at hc
        rw [List.cons_append, Text.trimLeft_cons hc, Text.trimLeft_cons hc]
        rfl

theorem beginsKey_append_blank {g : Text} (hg : Blank g) (s : Text) :
    beginsKey (s ++ g) = beginsKey s := by
  rw [beginsKey, beginsKey, afterFold?_append_blank (by decide) hg]
  cases Text.afterFold? keyName s with
  | none => rfl
  | some rest => simp [head?_trimLeft_append_blank hg]

theorem carriesKeyFrom_blank {g : Text} (hg : Blank g) (before : Option Char) :
    carriesKeyFrom before g = false := by
  induction g generalizing before with
  | nil => rfl
  | cons c g ih =>
      have hkey : beginsKey (c :: g) = beginsKey [] := beginsKey_append_blank hg []
      have ih := ih (fun d hd => hg d (List.mem_cons_of_mem _ hd)) (some c)
      rw [carriesKeyFrom, hkey, ih, show beginsKey [] = false from rfl]
      simp

theorem carriesKey_append_blank {g : Text} (hg : Blank g) (s : Text) :
    carriesKey (s ++ g) = carriesKey s := by
  have h : ∀ before, carriesKeyFrom before (s ++ g) = carriesKeyFrom before s := by
    induction s with
    | nil => exact fun before => carriesKeyFrom_blank hg before
    | cons c s ih =>
        intro before
        have hkey := beginsKey_append_blank hg (c :: s)
        rw [List.cons_append] at hkey ⊢
        rw [carriesKeyFrom, carriesKeyFrom, hkey, ih]
  exact h none

theorem beginsLower_append_blank {p g : Text} (hp : ∀ a ∈ p, isSpace a = false) (hg : Blank g)
    (s : Text) : Text.beginsLower p (s ++ g) = Text.beginsLower p s := by
  induction p generalizing s with
  | nil => simp [Text.beginsLower]
  | cons a p ih =>
      cases s with
      | nil =>
          cases g with
          | nil => rfl
          | cons c g =>
              have hc := hg c List.mem_cons_self
              have hne : Text.lowerAscii c ≠ a := by
                rw [lowerAscii_of_isSpace hc]
                rintro rfl
                rw [hp c List.mem_cons_self] at hc
                cases hc
              simp [Text.beginsLower, hne]
      | cons c s =>
          rw [List.cons_append, Text.beginsLower, Text.beginsLower,
            ih fun b hb => hp b (List.mem_cons_of_mem _ hb)]

theorem wrappers_append_blank_iff {s g : Text} (hg : Blank g) :
    wrappers (s ++ g) = [] ↔ wrappers s = [] := by
  match s with
  | [] =>
      have hnone : wrappers g = [] := (Passes.of_not_mem fun hlt => by
        have := hg _ hlt
        cases this).reads.wrappers_eq
      exact iff_of_true hnone rfl
  | c :: cs =>
      rw [List.cons_append, wrappers_cons, wrappers_cons, List.append_eq_nil_iff,
        List.append_eq_nil_iff]
      by_cases hc : c = '<'
      · subst hc
        have hspan : beginsSpan ('<' :: (cs ++ g)) = beginsSpan ('<' :: cs) :=
          beginsLower_append_blank (by decide) hg ('<' :: cs)
        have hpos := tagLength_pos .bare '<' cs
        have hle := tagLength_le .bare ('<' :: cs)
        rcases tagLength_append_blank hg .bare ('<' :: cs) with hlen | ⟨hlen, hlen'⟩
        · -- the tag ends where it has ended
          have htake : ('<' :: (cs ++ g)).take (tagLength .bare ('<' :: cs)) =
              ('<' :: cs).take (tagLength .bare ('<' :: cs)) :=
            List.take_append_of_le_length hle
          rw [List.cons_append] at hlen
          cases hkey : beginsSpan ('<' :: cs) &&
              carriesKey (('<' :: cs).take (tagLength .bare ('<' :: cs))) with
          | true => simp [readWrapper, hlen, hspan, htake, hkey]
          | false =>
              simp only [readWrapper, if_true, hlen, hspan, htake, hkey, Bool.false_eq_true,
                if_false, true_and]
              rw [List.drop_append_of_le_length (by rw [List.length_cons] at hle; omega)]
              exact wrappers_append_blank_iff hg
        · -- the tag takes the rest of the text
          have hkey := carriesKey_append_blank hg ('<' :: cs)
          rw [List.cons_append] at hlen' hkey
          cases hopens : beginsSpan ('<' :: cs) && carriesKey ('<' :: cs) with
          | true =>
              simp only [readWrapper, if_true, hlen, hlen', hspan, List.take_length, hkey, hopens]
              simp
          | false =>
              simp only [readWrapper, if_true, hlen, hlen', hspan, List.take_length, hkey, hopens,
                Bool.false_eq_true, if_false, true_and]
              rw [List.drop_eq_nil_of_le (by simp), List.drop_eq_nil_of_le (by simp)]
      · simp only [readWrapper, if_neg hc, Bool.false_eq_true, if_false, List.drop_zero, true_and]
        exact wrappers_append_blank_iff hg
termination_by s.length
decreasing_by
  · simp only [List.length_drop, List.length_cons]; omega
  · simp

end TaskLine.Markup
