import TaskLine.Line
import TaskLine.Proofs.Spacing

/-!
# The frame of a line

Exactly when a task line has a head (`splitHead?_eq_some_iff`) and ends in a
block reference (`EndsInReference`). The box of a checkbox holds one character
with white space around it, or white space only; a box of the second kind is
read as such only if no `]` follows (`Leads`), so the head of a line depends on
what stands behind it, if only on the next character.
-/

namespace TaskLine.Line

open Text (Blank Firm isSpace trimLeft trimRight)

/-! ## The head -/

/-- What a box can hold: a character with white space around it, or white space only. The
second is read in front of a text that does not begin with `]`. -/
inductive Boxed : Text → Text → Prop
  | mark {g g' y : Text} {c : Char} :
      Blank g → isSpace c = false → Blank g' → Boxed (g ++ c :: g') y
  | white {g y : Text} : Blank g → g ≠ [] → y.head? ≠ some ']' → Boxed g y

/-- In front of the text `y` the text `h` is the head of a task line. -/
structure Leads (h y : Text) : Prop where
  exists_parts : ∃ l b g x t, Blank l ∧ (b = '-' ∨ b = '*') ∧ Blank g ∧ Boxed x y ∧ Blank t ∧
    h = l ++ b :: (g ++ '[' :: (x ++ ']' :: t))

theorem isSpace_bullet {b : Char} (h : b = '-' ∨ b = '*') : isSpace b = false := by
  rcases h with rfl | rfl <;> decide

theorem afterBox?_of_boxed {x y t : Text} (hx : Boxed x y) (ht : Blank t)
    (hy : trimLeft y = y) : afterBox? (x ++ ']' :: (t ++ y)) = some (t ++ y) := by
  cases hx with
  | @mark g g' _ c hg hc hg' =>
      have htrim : trimLeft (g ++ c :: (g' ++ ']' :: (t ++ y))) = c :: (g' ++ ']' :: (t ++ y)) := by
        rw [Text.trimLeft_append hg, Text.trimLeft_cons hc]
      have hclose : trimLeft (g' ++ ']' :: (t ++ y)) = ']' :: (t ++ y) := by
        rw [Text.trimLeft_append hg', Text.trimLeft_cons (by decide)]
      simp only [List.append_assoc, List.cons_append, afterBox?, htrim, hclose]
  | white hg hne hhead =>
      have htrim : trimLeft (x ++ ']' :: (t ++ y)) = ']' :: (t ++ y) := by
        rw [Text.trimLeft_append hg, Text.trimLeft_cons (by decide)]
      have hlen : (']' :: (t ++ y)).length < (x ++ ']' :: (t ++ y)).length := by
        have := List.length_pos_iff.mpr hne
        rw [List.length_append]
        omega
      have hrest : trimLeft (t ++ y) = y := by rw [Text.trimLeft_append ht, hy]
      simp only [afterBox?, htrim, hrest]
      split
      · exact absurd rfl hhead
      · rw [if_pos (by simpa using hlen)]

theorem boxed_of_afterBox? {s r : Text} (h : afterBox? s = some r) :
    ∃ x, Boxed x (trimLeft r) ∧ s = x ++ ']' :: r := by
  obtain ⟨g, hg, hs⟩ := Text.exists_blank_trimLeft s
  rw [afterBox?] at h
  split at h
  · cases h
  · rename_i c cs htrim
    rw [htrim] at hs
    split at h
    · -- a bracket behind a character
      rename_i rest hclose
      obtain rfl := Option.some.inj h
      obtain ⟨g', hg', hcs⟩ := Text.exists_blank_trimLeft cs
      have hc : isSpace c = false := Text.trimLeft_head (s := s) (by rw [htrim]; rfl)
      refine ⟨g ++ c :: g', .mark hg hc hg', ?_⟩
      rw [hs, hcs, hclose]
      simp
    · -- a bracket behind white space
      rename_i hopen
      split at h
      · rename_i hcond
        obtain rfl := Option.some.inj h
        simp only [Bool.and_eq_true, decide_eq_true_eq] at hcond
        refine ⟨g, .white hg ?_ ?_, hcond.1 ▸ hs⟩
        · rintro rfl
          rw [htrim, hs] at hcond
          simp at hcond
        · intro hhead
          cases hcs : trimLeft cs with
          | nil => simp [hcs] at hhead
          | cons d rest =>
              rw [hcs] at hhead
              obtain rfl := Option.some.inj hhead
              exact hopen rest hcs
      · cases h

theorem afterCheckbox?_eq_some_iff {s y : Text} :
    afterCheckbox? s = some y ↔ ∃ h, s = h ++ y ∧ Leads h y ∧ trimLeft y = y := by
  constructor
  · intro h
    obtain ⟨l, hl, hs⟩ := Text.exists_blank_trimLeft s
    rw [afterCheckbox?] at h
    split at h
    · cases h
    · rename_i b cs htrim
      rw [htrim] at hs
      split at h
      · rename_i hb
        simp only [Bool.or_eq_true, decide_eq_true_eq] at hb
        obtain ⟨g, hg, hcs⟩ := Text.exists_blank_trimLeft cs
        split at h
        · rename_i rest hopen
          rw [hopen] at hcs
          rw [Option.map_eq_some_iff] at h
          obtain ⟨r, hr, rfl⟩ := h
          obtain ⟨x, hx, hrest⟩ := boxed_of_afterBox? hr
          obtain ⟨t, ht, hrt⟩ := Text.exists_blank_trimLeft r
          refine ⟨l ++ b :: (g ++ '[' :: (x ++ ']' :: t)), ?_,
            ⟨l, b, g, x, t, hl, hb, hg, hx, ht, rfl⟩, ?_⟩
          · rw [hs, hcs, hrest]
            conv_lhs => rw [hrt]
            simp
          · exact Text.trimLeft_trimLeft r
        · cases h
      · cases h
  · rintro ⟨h, rfl, ⟨l, b, g, x, t, hl, hb, hg, hx, ht, rfl⟩, hy⟩
    have hbullet : trimLeft (l ++ b :: (g ++ '[' :: (x ++ ']' :: (t ++ y)))) =
        b :: (g ++ '[' :: (x ++ ']' :: (t ++ y))) := by
      rw [Text.trimLeft_append hl, Text.trimLeft_cons (isSpace_bullet hb)]
    have hopen : trimLeft (g ++ '[' :: (x ++ ']' :: (t ++ y))) =
        '[' :: (x ++ ']' :: (t ++ y)) := by
      rw [Text.trimLeft_append hg, Text.trimLeft_cons (by decide)]
    have hrest : trimLeft (t ++ y) = y := by rw [Text.trimLeft_append ht, hy]
    simp only [List.append_assoc, List.cons_append, afterCheckbox?, hbullet, hopen,
      afterBox?_of_boxed hx ht hy, Option.map_some, hrest]
    rw [if_pos (by simpa using hb)]

/-- The head of a task line, and what stands behind it. -/
theorem splitHead?_eq_some_iff {s h y : Text} :
    splitHead? s = some (h, y) ↔ s = h ++ y ∧ Leads h y ∧ trimLeft y = y := by
  rw [splitHead?, Option.map_eq_some_iff]
  constructor
  · rintro ⟨y', hy', heq⟩
    obtain ⟨h', rfl, hlead, htrim⟩ := afterCheckbox?_eq_some_iff.mp hy'
    rw [List.length_append, Nat.add_sub_cancel, List.take_left, Prod.mk.injEq] at heq
    obtain ⟨rfl, rfl⟩ := heq
    exact ⟨rfl, hlead, htrim⟩
  · rintro ⟨rfl, hlead, htrim⟩
    refine ⟨y, afterCheckbox?_eq_some_iff.mpr ⟨h, rfl, hlead, htrim⟩, ?_⟩
    rw [List.length_append, Nat.add_sub_cancel, List.take_left]

/-- White space may be put behind a head. -/
theorem Leads.append {h y g : Text} (hlead : Leads h y) (hg : Blank g) : Leads (h ++ g) y := by
  obtain ⟨l, b, g', x, t, hl, hb, hg', hx, ht, rfl⟩ := hlead
  exact ⟨l, b, g', x, t ++ g, hl, hb, hg', hx, ht.append hg, by simp⟩

/-- A head ends in the bracket of its box, white space apart. -/
theorem Leads.exists_trimRight {h y : Text} (hlead : Leads h y) :
    ∃ k, trimRight h = k ++ [']'] ∧ Leads (k ++ [']']) y := by
  obtain ⟨l, b, g, x, t, hl, hb, hg, hx, ht, rfl⟩ := hlead
  refine ⟨l ++ b :: (g ++ '[' :: x), ?_, l, b, g, x, [], hl, hb, hg, hx, Blank.nil, by simp⟩
  have hsplit : l ++ b :: (g ++ '[' :: (x ++ ']' :: t)) =
      (l ++ b :: (g ++ '[' :: x)) ++ [']'] ++ t := by simp
  rw [hsplit, Text.trimRight_append ht, Text.trimRight_concat (by decide)]

/-- A head in front of one text is a head in front of another that begins with no bracket, or
with the same character. -/
theorem Leads.congr {h y y' : Text} (hlead : Leads h y)
    (hy : y'.head? = some ']' → y.head? = some ']') : Leads h y' := by
  obtain ⟨l, b, g, x, t, hl, hb, hg, hx, ht, rfl⟩ := hlead
  refine ⟨l, b, g, x, t, hl, hb, hg, ?_, ht, rfl⟩
  cases hx with
  | mark hg hc hg' => exact .mark hg hc hg'
  | white hg hne hhead => exact .white hg hne (mt hy hhead)

/-- A head is one in front of any text, unless its box holds white space only. Then a bracket
behind it closes the box in its stead. -/
theorem Leads.forall_or_concat {h y : Text} (hlead : Leads h y) :
    (∀ y', Leads h y') ∨ ∀ y', Leads (h ++ [']']) y' := by
  obtain ⟨l, b, g, x, t, hl, hb, hg, hx, ht, rfl⟩ := hlead
  cases hx with
  | mark hg' hc hg'' =>
      exact .inl fun y' => ⟨l, b, g, _, t, hl, hb, hg, .mark hg' hc hg'', ht, rfl⟩
  | white hg' hne _ =>
      refine .inr fun y' => ⟨l, b, g, x ++ ']' :: t, [], hl, hb, hg, ?_, Blank.nil, by simp⟩
      exact .mark hg' (by decide) ht

theorem Boxed.collapse {x y : Text} (hx : Boxed x y) : Boxed (Text.collapse x) y := by
  cases hx with
  | mark hg hc hg' =>
      rw [Text.collapse_append_cons hc]
      exact .mark hg.collapse hc hg'.collapse
  | white hg hne hhead =>
      exact .white hg.collapse (fun h => hne (Text.collapse_eq_nil.mp h)) hhead

/-- The white space in a head can be narrowed. -/
theorem Leads.collapse {h y : Text} (hlead : Leads h y) : Leads (Text.collapse h) y := by
  obtain ⟨l, b, g, x, t, hl, hb, hg, hx, ht, rfl⟩ := hlead
  refine ⟨Text.collapse l, b, Text.collapse g, Text.collapse x, Text.collapse t, hl.collapse, hb,
    hg.collapse, hx.collapse, ht.collapse, ?_⟩
  rw [Text.collapse_append_cons (isSpace_bullet hb), Text.collapse_append_cons (by decide),
    Text.collapse_append_cons (by decide)]

theorem endsInTag_append {g : Text} (hg : Blank g) (s : Text) :
    endsInTag (s ++ g) = endsInTag s := by
  rw [endsInTag, List.reverse_append, List.dropWhile_append_of_pos hg.reverse]
  rfl

/-- A head ends in a bracket. -/
theorem Leads.endsInTag {h y : Text} (hlead : Leads h y) : endsInTag h = false := by
  obtain ⟨l, b, g, x, t, -, -, -, -, ht, rfl⟩ := hlead
  have hsplit : l ++ b :: (g ++ '[' :: (x ++ ']' :: t)) =
      (l ++ b :: (g ++ '[' :: (x ++ [']']))) ++ t := by simp
  rw [hsplit, endsInTag_append ht, Line.endsInTag]
  simp only [List.reverse_append, List.reverse_cons, List.reverse_nil, List.nil_append,
    List.cons_append, List.append_assoc]
  rfl

theorem guardTag_append_blank {s g : Text} (hs : trimRight s = s) (htag : endsInTag s = true)
    (hg : Blank g) : guardTag (s ++ g) = s ++ [' '] := by
  rw [guardTag, endsInTag_append hg, htag, Text.trimRight_append hg, hs]
  rfl

/-- A line that has its space gets no other. -/
theorem guardTag_guardTag (s : Text) : guardTag (guardTag s) = guardTag s := by
  have hspace : Blank [' '] := Blank.singleton Text.isSpace_space
  obtain ⟨g, hg, hs⟩ := Text.exists_trimRight_blank s
  by_cases htag : endsInTag s = true
  · have htag' : endsInTag (trimRight s) = true := by
      rwa [hs, endsInTag_append hg] at htag
    rw [show guardTag s = trimRight s ++ [' '] by rw [guardTag, if_pos htag], guardTag,
      endsInTag_append hspace, htag', Text.trimRight_append hspace, Text.trimRight_trimRight]
    rfl
  · have hsame : guardTag s = s := by rw [guardTag, if_neg htag]
    rw [hsame, hsame]

/-- A line without trailing white space gets one space or none. -/
theorem guardTag_of_trimmed {s : Text} (h : trimRight s = s) :
    guardTag s = s ∨ guardTag s = s ++ [' '] := by
  rw [guardTag, h]
  split
  · exact .inr rfl
  · exact .inl rfl

/-! ## The block reference -/

/-- The text ends in a block reference, up to white space. -/
def EndsInReference (s : Text) : Prop :=
  ∃ y name g, name ≠ [] ∧ (∀ c ∈ name, isBlockChar c = true) ∧ Blank g ∧
    s = y ++ '^' :: (name ++ g)

theorem isSpace_of_isBlockChar {c : Char} (h : isBlockChar c = true) : isSpace c = false := by
  by_contra hc
  rw [Bool.not_eq_false] at hc
  simp only [isBlockChar, Text.isAsciiLetter, Text.isAsciiLower, Text.isAsciiUpper,
    Text.isAsciiDigit, Bool.or_eq_true, Bool.and_eq_true, decide_eq_true_eq, beq_iff_eq,
    Char.le_def, UInt32.le_iff_toNat_le] at h
  simp only [isSpace, Bool.or_eq_true, Bool.and_eq_true, decide_eq_true_eq, beq_iff_eq] at hc
  have hval : c.toNat = c.val.toNat := rfl
  rcases h with (((h | h) | h) | rfl)
  · have h₁ : ('a' : Char).val.toNat = 97 := rfl
    have h₂ : ('z' : Char).val.toNat = 122 := rfl
    omega
  · have h₁ : ('A' : Char).val.toNat = 65 := rfl
    have h₂ : ('Z' : Char).val.toNat = 90 := rfl
    omega
  · have h₁ : ('0' : Char).val.toNat = 48 := rfl
    have h₂ : ('9' : Char).val.toNat = 57 := rfl
    omega
  · revert hc
    decide

theorem splitBlockId_append {name g : Text} (hne : name ≠ [])
    (hname : ∀ c ∈ name, isBlockChar c = true) (hg : Blank g) (y : Text) :
    splitBlockId (y ++ '^' :: (name ++ g)) = (trimRight y ++ [' '], some ('^' :: name)) := by
  have hrev : ∀ c ∈ name.reverse, isBlockChar c = true :=
    fun c hc => hname c (List.mem_reverse.mp hc)
  have hback : (y ++ '^' :: (name ++ g)).reverse.dropWhile isSpace =
      name.reverse ++ '^' :: y.reverse := by
    have hsplit : (y ++ '^' :: (name ++ g)).reverse =
        g.reverse ++ (name.reverse ++ '^' :: y.reverse) := by simp
    rw [hsplit, List.dropWhile_append_of_pos hg.reverse]
    obtain ⟨c, cs, hcs⟩ := List.exists_cons_of_ne_nil (List.reverse_ne_nil_iff.mpr hne)
    have hc := isSpace_of_isBlockChar (hrev c (hcs ▸ List.mem_cons_self))
    rw [hcs, List.cons_append]
    exact Text.trimLeft_cons hc _
  have htake : (name.reverse ++ '^' :: y.reverse).takeWhile isBlockChar = name.reverse := by
    rw [List.takeWhile_append_of_pos hrev, List.takeWhile_cons_of_neg (by decide),
      List.append_nil]
  have hdrop : (name.reverse ++ '^' :: y.reverse).dropWhile isBlockChar = '^' :: y.reverse := by
    rw [List.dropWhile_append_of_pos hrev, List.dropWhile_cons_of_neg (by decide)]
  simp only [splitBlockId, hback, htake, hdrop, List.reverse_reverse]
  rw [if_neg (by simpa using hne)]
  rfl

/-- A text that ends in no block reference is left as it is. -/
theorem splitBlockId_of_not {s : Text} (h : ¬EndsInReference s) : splitBlockId s = (s, none) := by
  unfold splitBlockId
  simp only
  split
  · rename_i front hfront
    split
    · rfl
    · rename_i hname
      -- the characters taken off the end are a reference after all
      refine absurd ⟨front.reverse,
        ((s.reverse.dropWhile isSpace).takeWhile isBlockChar).reverse,
        (s.reverse.takeWhile isSpace).reverse, ?_, ?_, ?_, ?_⟩ h
      · simpa using hname
      · exact fun c hc => List.mem_takeWhile_imp (List.mem_reverse.mp hc)
      · exact fun c hc => List.mem_takeWhile_imp (List.mem_reverse.mp hc)
      · have h₁ := List.takeWhile_append_dropWhile (p := isSpace) (l := s.reverse)
        have h₂ := List.takeWhile_append_dropWhile (p := isBlockChar)
          (l := s.reverse.dropWhile isSpace)
        rw [hfront] at h₂
        rw [← h₂] at h₁
        have := congrArg List.reverse h₁
        rw [List.reverse_reverse] at this
        conv_lhs => rw [← this]
        simp
  · rfl

/-- A block reference is a caret and a name. -/
theorem exists_name_of_splitBlockId {s b : Text} (h : (splitBlockId s).2 = some b) :
    ∃ name, name ≠ [] ∧ (∀ c ∈ name, isBlockChar c = true) ∧ b = '^' :: name := by
  by_cases href : EndsInReference s
  · obtain ⟨y, name, g, hne, hname, hg, rfl⟩ := href
    rw [splitBlockId_append hne hname hg] at h
    exact ⟨name, hne, hname, (Option.some.inj h).symm⟩
  · rw [splitBlockId_of_not href] at h
    cases h

theorem endsInReference_caret {s : Text} (h : EndsInReference s) : '^' ∈ s := by
  obtain ⟨y, name, g, -, -, -, rfl⟩ := h
  simp

theorem not_endsInReference_concat {c : Char} (hspace : isSpace c = false)
    (hblock : isBlockChar c = false) (s : Text) : ¬EndsInReference (s ++ [c]) := by
  rintro ⟨y, name, g, hne, hname, hg, heq⟩
  have hlast := congrArg List.getLast? heq
  rw [List.getLast?_concat, List.getLast?_append_cons, ← List.cons_append] at hlast
  by_cases hgne : g = []
  · subst hgne
    rw [List.append_nil, List.getLast?_cons_of_ne_nil hne] at hlast
    rw [hname c (List.mem_of_getLast? hlast.symm)] at hblock
    cases hblock
  · rw [List.getLast?_append_of_ne_nil _ hgne] at hlast
    rw [hg c (List.mem_of_getLast? hlast.symm)] at hspace
    cases hspace

/-- A block reference has no white space in it, so it belongs to the last word. -/
theorem EndsInReference.of_word {y w g : Text} {c : Char} (hc : isSpace c = true) (hw : Firm w)
    (hg : Blank g) (h : EndsInReference (y ++ c :: (w ++ g))) : EndsInReference w := by
  obtain ⟨y', name, g', hne, hname, hg', heq⟩ := h
  have hfirm : Firm ('^' :: name) := by
    obtain ⟨cs, d, rfl⟩ : ∃ cs d, name = cs ++ [d] :=
      ⟨_, _, (List.dropLast_append_getLast hne).symm⟩
    refine Text.firm_of_cons_eq_concat (t := '^' :: cs) (by decide) ?_ rfl
    exact isSpace_of_isBlockChar (hname d (by simp))
  have hcut : (y ++ [c]) ++ w = y' ++ '^' :: name := by
    have htrim := congrArg trimRight heq
    rw [← List.cons_append, ← List.append_assoc, ← List.cons_append, ← List.append_assoc,
      Text.trimRight_append hg, Text.trimRight_append hg', hfirm.trimRight_append,
      ← List.singleton_append, ← List.append_assoc, hw.trimRight_append] at htrim
    exact htrim
  rcases List.append_eq_append_iff.mp hcut with ⟨a, rfl, hwa⟩ | ⟨a, hya, hname'⟩
  · exact ⟨a, name, [], hne, hname, Blank.nil, by simpa using hwa⟩
  · cases a with
    | nil => exact ⟨[], name, [], hne, hname, Blank.nil, by simpa using hname'.symm⟩
    | cons d a =>
        -- the white space in front of the word would be part of the reference
        have hmem : c ∈ '^' :: name := by
          rw [hname']
          refine List.mem_append_left _ ?_
          have hlast := congrArg List.getLast? hya
          rw [List.getLast?_concat, List.getLast?_append_cons] at hlast
          exact List.mem_of_getLast? hlast.symm
        rcases List.mem_cons.mp hmem with rfl | hmem
        · cases hc
        · rw [isSpace_of_isBlockChar (hname c hmem)] at hc
          cases hc

end TaskLine.Line
