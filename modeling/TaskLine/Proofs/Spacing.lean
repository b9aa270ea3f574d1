import Mathlib.Data.List.Chain
import Mathlib.Data.List.TakeWhile
import TaskLine.Text.Basic

/-!
# Spacing

What trimming and collapsing do to a text that is put together from others.

White space is *blank* when nothing else is in it, a text is *tidy* when no two
white space characters stand side by side in it, and *firm* when it is not
empty and has no white space at either end. Tidy texts are the ones that
collapsing leaves alone (`collapse_eq_self`, `tidy_collapse`), and collapsing
passes over every character that is no white space (`collapse_append_cons`).

Texts that collapse to the same text may replace each other anywhere inside a
larger one (`collapse_congr_left`): how wide a gap is never matters, only
whether there is one.
-/

namespace TaskLine.Text

/-- What is said of all characters of a text is decided on the text, not on all characters. -/
instance (priority := high) decidableForallMem {p : Char → Prop} [DecidablePred p] (s : Text) :
    Decidable (∀ c ∈ s, p c) :=
  List.decidableBAll p s

instance (priority := high) decidableForallEqSome {p : Char → Prop} [DecidablePred p]
    (o : Option Char) : Decidable (∀ c, o = some c → p c) :=
  Option.decidableForallMem o

/-- All there is in the text is white space. -/
def Blank (s : Text) : Prop := ∀ c ∈ s, isSpace c = true

instance (s : Text) : Decidable (Blank s) :=
  inferInstanceAs (Decidable (∀ c ∈ s, isSpace c = true))

/-- No two white space characters stand side by side. -/
def Tidy (s : Text) : Prop := s.IsChain fun a b => isSpace a = true → isSpace b = false

/-- The text is not empty and has no white space at either end. -/
structure Firm (s : Text) : Prop where
  ne_nil : s ≠ []
  head : ∀ c, s.head? = some c → isSpace c = false
  last : ∀ c, s.getLast? = some c → isSpace c = false

theorem isSpace_space : isSpace ' ' = true := by decide

theorem Blank.nil : Blank [] := by simp [Blank]

theorem Blank.singleton {c : Char} (h : isSpace c = true) : Blank [c] := by
  simpa [Blank] using h

theorem Blank.append {s t : Text} (hs : Blank s) (ht : Blank t) : Blank (s ++ t) := by
  intro c hc
  rcases List.mem_append.mp hc with h | h
  · exact hs c h
  · exact ht c h

theorem Blank.reverse {s : Text} (h : Blank s) : Blank s.reverse :=
  fun c hc => h c (List.mem_reverse.mp hc)

theorem firm_nil : ¬Firm [] := fun h => h.ne_nil rfl

theorem Firm.cons_eq {s : Text} (h : Firm s) : ∃ c cs, s = c :: cs ∧ isSpace c = false := by
  cases s with
  | nil => exact absurd rfl h.ne_nil
  | cons c cs => exact ⟨c, cs, rfl, h.head c rfl⟩

theorem firm_of_cons_eq_concat {c d : Char} {s t : Text} (hc : isSpace c = false)
    (hd : isSpace d = false) (h : c :: s = t ++ [d]) : Firm (c :: s) := by
  refine ⟨List.cons_ne_nil _ _, fun e he => ?_, fun e he => ?_⟩
  · obtain rfl := Option.some.inj he
    exact hc
  · rw [h, List.getLast?_concat] at he
    obtain rfl := Option.some.inj he
    exact hd

theorem Firm.append_eq {s : Text} (h : Firm s) : ∃ cs c, s = cs ++ [c] ∧ isSpace c = false := by
  have hne := h.ne_nil
  refine ⟨s.dropLast, s.getLast hne, (List.dropLast_append_getLast hne).symm, ?_⟩
  exact h.last _ (List.getLast?_eq_some_getLast hne)

theorem firm_iff {s : Text} :
    Firm s ↔ s.head?.any (!isSpace ·) = true ∧ s.getLast?.any (!isSpace ·) = true := by
  cases s with
  | nil => simp [firm_nil]
  | cons c s =>
      constructor
      · rintro ⟨-, hhead, hlast⟩
        have hl := hlast _ (List.getLast?_eq_some_getLast (List.cons_ne_nil c s))
        simp [hhead c rfl, List.getLast?_eq_some_getLast, hl]
      · rintro ⟨hhead, hlast⟩
        refine ⟨List.cons_ne_nil _ _, fun d hd => ?_, fun d hd => ?_⟩
        · simpa [hd] using hhead
        · simpa [hd] using hlast

instance (s : Text) : Decidable (Firm s) := decidable_of_iff _ firm_iff.symm

/-! ## Trimming -/

theorem trimLeft_append {g : Text} (hg : Blank g) (s : Text) :
    trimLeft (g ++ s) = trimLeft s :=
  List.dropWhile_append_of_pos hg

theorem trimLeft_cons {c : Char} (hc : isSpace c = false) (s : Text) :
    trimLeft (c :: s) = c :: s := by
  simp [trimLeft, hc]

theorem trimLeft_blank {g : Text} (hg : Blank g) : trimLeft g = [] := by
  simpa [trimLeft] using trimLeft_append hg []

theorem trimRight_append {g : Text} (hg : Blank g) (s : Text) :
    trimRight (s ++ g) = trimRight s := by
  rw [trimRight, List.reverse_append, List.dropWhile_append_of_pos hg.reverse]
  rfl

theorem trimRight_concat {c : Char} (hc : isSpace c = false) (s : Text) :
    trimRight (s ++ [c]) = s ++ [c] := by
  simp [trimRight, hc]

theorem trimRight_blank {g : Text} (hg : Blank g) : trimRight g = [] := by
  simpa [trimRight] using trimRight_append hg []

/-- White space and what stands behind it make up a text. -/
theorem exists_blank_trimLeft (s : Text) : ∃ g, Blank g ∧ s = g ++ trimLeft s :=
  ⟨s.takeWhile isSpace, fun _ hc => List.mem_takeWhile_imp hc,
    List.takeWhile_append_dropWhile.symm⟩

theorem exists_trimRight_blank (s : Text) : ∃ g, Blank g ∧ s = trimRight s ++ g := by
  obtain ⟨g, hg, h⟩ := exists_blank_trimLeft s.reverse
  refine ⟨g.reverse, hg.reverse, ?_⟩
  have := congrArg List.reverse h
  rwa [List.reverse_reverse, List.reverse_append] at this

theorem trimLeft_head {s : Text} {c : Char} (h : (trimLeft s).head? = some c) :
    isSpace c = false := by
  cases hs : trimLeft s with
  | nil => rw [hs] at h; cases h
  | cons d ds =>
      rw [hs] at h
      obtain rfl := Option.some.inj h
      have := List.head?_dropWhile_not isSpace s
      rw [show s.dropWhile isSpace = d :: ds from hs] at this
      simpa using this

theorem trimLeft_trimLeft (s : Text) : trimLeft (trimLeft s) = trimLeft s := by
  cases hs : trimLeft s with
  | nil => rfl
  | cons c cs => exact trimLeft_cons (trimLeft_head (s := s) (by rw [hs]; rfl)) cs

theorem trimRight_last {s : Text} {c : Char} (h : (trimRight s).getLast? = some c) :
    isSpace c = false := by
  rw [trimRight, List.getLast?_reverse] at h
  exact trimLeft_head (s := s.reverse) h

theorem trimRight_trimRight (s : Text) : trimRight (trimRight s) = trimRight s := by
  have h := trimLeft_trimLeft s.reverse
  rw [trimLeft, trimLeft] at h
  rw [trimRight, trimRight, List.reverse_reverse, h]

theorem Firm.trimLeft {s : Text} (h : Firm s) : trimLeft s = s := by
  obtain ⟨c, cs, rfl, hc⟩ := h.cons_eq
  exact trimLeft_cons hc cs

theorem Firm.trimRight {s : Text} (h : Firm s) : trimRight s = s := by
  obtain ⟨cs, c, rfl, hc⟩ := h.append_eq
  exact trimRight_concat hc cs

/-- What is left of a text when its ends are trimmed is nothing or firm. -/
theorem trim_eq_nil_or_firm (s : Text) : trim s = [] ∨ Firm (trim s) := by
  rcases h : trim s with _ | ⟨c, cs⟩
  · exact .inl rfl
  refine .inr ⟨by simp, ?_, fun d hd => trimRight_last (s := trimLeft s) ?_⟩
  case refine_2 => rwa [← h] at hd
  rintro d hd
  obtain ⟨g, -, hg⟩ := exists_trimRight_blank (trimLeft s)
  refine trimLeft_head (s := s) ?_
  rw [hg, show Text.trimRight (Text.trimLeft s) = c :: cs from h]
  exact hd

theorem Firm.trimLeft_tail {c : Char} {s : Text} (h : Firm (c :: s)) :
    Text.trimLeft s = [] ∨ Firm (Text.trimLeft s) := by
  by_cases hnil : Text.trimLeft s = []
  · exact .inl hnil
  · refine .inr ⟨hnil, fun d hd => trimLeft_head hd, fun d hd => h.last d ?_⟩
    obtain ⟨g, -, hg⟩ := exists_blank_trimLeft s
    rw [hg, ← List.cons_append, List.getLast?_append_of_ne_nil _ hnil]
    exact hd

theorem Firm.trimRight_prefix {s t : Text} (h : Firm (s ++ t)) :
    Text.trimRight s = [] ∨ Firm (Text.trimRight s) := by
  cases s with
  | nil => exact .inl (trimRight_blank Blank.nil)
  | cons c s =>
      have htrim : trim (c :: s) = Text.trimRight (c :: s) :=
        congrArg Text.trimRight (trimLeft_cons (h.head c rfl) s)
      rw [← htrim]
      exact trim_eq_nil_or_firm _

/-- Trimming takes white space off both ends and nothing else. -/
theorem exists_blank_trim_blank (s : Text) :
    ∃ g g', Blank g ∧ Blank g' ∧ s = g ++ trim s ++ g' := by
  obtain ⟨g, hg, h⟩ := exists_blank_trimLeft s
  obtain ⟨g', hg', h'⟩ := exists_trimRight_blank (trimLeft s)
  refine ⟨g, g', hg, hg', ?_⟩
  rw [trim, List.append_assoc, ← h', ← h]

theorem trim_append_append {g g' s : Text} (hg : Blank g) (hg' : Blank g')
    (hs : s = [] ∨ Firm s) : trim (g ++ s ++ g') = s := by
  rw [trim, List.append_assoc, trimLeft_append hg]
  rcases hs with rfl | hs
  · simp [trimLeft_blank hg', trimRight_blank Blank.nil]
  · obtain ⟨c, cs, rfl, hc⟩ := hs.cons_eq
    rw [List.cons_append, trimLeft_cons hc, ← List.cons_append, trimRight_append hg']
    exact hs.trimRight

/-! ## Collapsing -/

theorem collapse_cons_of_eq_cons {c d : Char} {s out : Text} (h : collapse s = d :: out) :
    collapse (c :: s) =
      if (isSpace c && isSpace d) = true then ' ' :: out else c :: d :: out := by
  rw [collapse, h]

theorem collapse_cons_of_not_space {c : Char} (hc : isSpace c = false) (s : Text) :
    collapse (c :: s) = c :: collapse s := by
  rw [collapse]
  cases collapse s with
  | nil => rfl
  | cons d out => simp [hc]

/-- What collapsing makes of a text behind a character depends on the collapsed text alone. -/
theorem collapse_congr_cons (c : Char) {s t : Text} (h : collapse s = collapse t) :
    collapse (c :: s) = collapse (c :: t) := by
  rw [collapse, collapse, h]

theorem collapse_congr_left (a : Text) {s t : Text} (h : collapse s = collapse t) :
    collapse (a ++ s) = collapse (a ++ t) := by
  induction a with
  | nil => exact h
  | cons c a ih => exact collapse_congr_cons c ih

theorem collapse_eq_nil {s : Text} : collapse s = [] ↔ s = [] := by
  cases s with
  | nil => simp [collapse]
  | cons c s =>
      rw [collapse]
      split
      · simp
      · split <;> simp

/-- Collapsing passes over a character that is no white space. -/
theorem collapse_append_cons {c : Char} (hc : isSpace c = false) (a s : Text) :
    collapse (a ++ c :: s) = collapse a ++ c :: collapse s := by
  induction a with
  | nil => exact collapse_cons_of_not_space hc s
  | cons x a ih =>
      rw [List.cons_append, collapse, ih, collapse]
      cases collapse a with
      | nil => simp [hc]
      | cons d out =>
          simp only [List.cons_append]
          split <;> simp

theorem tidy_collapse (s : Text) : Tidy (collapse s) := by
  induction s with
  | nil => exact .nil
  | cons c s ih =>
      rw [collapse]
      cases h : collapse s with
      | nil => exact .singleton _
      | cons d out =>
          rw [h] at ih
          simp only [Bool.and_eq_true]
          split
          · rename_i hcd
            cases out with
            | nil => exact .singleton _
            | cons e out =>
                rw [Tidy, List.isChain_cons_cons] at ih ⊢
                exact ⟨fun _ => ih.1 hcd.2, ih.2⟩
          · rename_i hcd
            rw [Tidy, List.isChain_cons_cons]
            exact ⟨fun hc => by simpa [hc] using hcd, ih⟩

/-- A tidy text has nothing to collapse. -/
theorem collapse_eq_self {s : Text} (h : Tidy s) : collapse s = s := by
  induction s with
  | nil => rfl
  | cons c s ih =>
      have hs : Tidy s := h.tail
      rw [collapse, ih hs]
      cases s with
      | nil => rfl
      | cons d s =>
          rw [Tidy, List.isChain_cons_cons] at h
          have : ¬((isSpace c && isSpace d) = true) := by
            rw [Bool.and_eq_true]
            rintro ⟨hc, hd⟩
            rw [h.1 hc] at hd
            cases hd
          simp [this]

theorem tidy_iff {s : Text} : Tidy s ↔ collapse s = s :=
  ⟨collapse_eq_self, fun h => h ▸ tidy_collapse s⟩

instance (s : Text) : Decidable (Tidy s) := decidable_of_iff _ tidy_iff.symm

theorem collapse_collapse (s : Text) : collapse (collapse s) = collapse s :=
  collapse_eq_self (tidy_collapse s)

theorem collapse_of_not_space {s : Text} (h : ∀ c ∈ s, isSpace c = false) : collapse s = s := by
  induction s with
  | nil => rfl
  | cons c s ih =>
      rw [collapse_cons_of_not_space (h c List.mem_cons_self),
        ih fun d hd => h d (List.mem_cons_of_mem _ hd)]

/-! ### Gaps

A white space character next to a space adds nothing. -/

theorem collapse_cons_space {c : Char} (hc : isSpace c = true) (s : Text) :
    collapse (c :: ' ' :: s) = collapse (' ' :: s) := by
  rw [collapse, collapse]
  cases collapse s with
  | nil => simp [hc, isSpace_space]
  | cons d out =>
      by_cases hd : isSpace d = true <;> simp [hc, hd, isSpace_space]

theorem collapse_space_cons {c : Char} (hc : isSpace c = true) (s : Text) :
    collapse (' ' :: c :: s) = collapse (' ' :: s) := by
  rw [collapse, collapse, collapse]
  cases collapse s with
  | nil => simp [hc, isSpace_space]
  | cons d out =>
      by_cases hd : isSpace d = true <;> simp [hc, hd, isSpace_space]

theorem collapse_blank_space {g : Text} (hg : Blank g) (s : Text) :
    collapse (g ++ ' ' :: s) = collapse (' ' :: s) := by
  induction g with
  | nil => rfl
  | cons c g ih =>
      have ih := ih fun d hd => hg d (List.mem_cons_of_mem _ hd)
      rw [List.cons_append, collapse_congr_cons c ih]
      exact collapse_cons_space (hg c List.mem_cons_self) s

theorem collapse_space_blank {g : Text} (hg : Blank g) (s : Text) :
    collapse (' ' :: (g ++ s)) = collapse (' ' :: s) := by
  induction g with
  | nil => rfl
  | cons c g ih =>
      rw [List.cons_append, collapse_space_cons (hg c List.mem_cons_self)]
      exact ih fun d hd => hg d (List.mem_cons_of_mem _ hd)

theorem Blank.collapse {g : Text} (hg : Blank g) : Blank (collapse g) := by
  induction g with
  | nil => exact hg
  | cons c g ih =>
      have hc := hg c List.mem_cons_self
      have ih := ih fun d hd => hg d (List.mem_cons_of_mem _ hd)
      cases h : Text.collapse g with
      | nil =>
          rw [Text.collapse, h]
          exact Blank.singleton hc
      | cons d out =>
          rw [h] at ih
          have hout : Blank out := fun e he => ih e (List.mem_cons_of_mem _ he)
          rw [collapse_cons_of_eq_cons h, if_pos (by simp [hc, ih d List.mem_cons_self])]
          exact (Blank.singleton isSpace_space).append hout

theorem collapse_collapse_append (a s : Text) :
    collapse (collapse a ++ s) = collapse (a ++ s) := by
  induction a with
  | nil => rfl
  | cons c a ih =>
      rw [List.cons_append, ← collapse_congr_cons c ih]
      cases h : collapse a with
      | nil => rw [collapse_eq_nil.mp h]; rfl
      | cons d out =>
          rw [collapse_cons_of_eq_cons h]
          by_cases hcd : (isSpace c && isSpace d) = true
          · rw [if_pos hcd]
            rw [Bool.and_eq_true] at hcd
            -- the run of `c` and `d` has become one space, and does so again
            rw [List.cons_append, List.cons_append, collapse, collapse, collapse]
            cases collapse (out ++ s) with
            | nil => simp [hcd.1, hcd.2]
            | cons e rest =>
                by_cases he : isSpace e = true <;> simp [hcd.1, hcd.2, he, isSpace_space]
          · rw [if_neg hcd]
            rfl

/-- Collapsing does not reach across the end of a text that ends in no white space. -/
theorem collapse_append_of_last {s : Text} (h : ∀ c, s.getLast? = some c → isSpace c = false)
    (t : Text) : collapse (s ++ t) = collapse s ++ collapse t := by
  rcases s.eq_nil_or_concat with rfl | ⟨s, c, rfl⟩
  · rfl
  · have hc : isSpace c = false := h c (by simp)
    rw [List.concat_eq_append, List.append_assoc, List.singleton_append, collapse_append_cons hc,
      collapse_append_cons hc]
    simp [collapse]

/-! ### Firm texts -/

theorem Firm.collapse_append {x : Text} (hx : Firm x) (a b : Text) :
    collapse (a ++ x ++ b) = collapse a ++ collapse x ++ collapse b := by
  obtain ⟨c, cs, rfl, hc⟩ := hx.cons_eq
  have hleft : collapse (a ++ c :: cs) = collapse a ++ collapse (c :: cs) := by
    rw [collapse_append_cons hc, collapse_cons_of_not_space hc]
  rw [← hleft]
  refine collapse_append_of_last (fun d hd => hx.last d ?_) b
  rwa [List.getLast?_append_cons] at hd

/-- A firm text that is tidy already is passed over. -/
theorem Firm.collapse_append_right {x : Text} (hx : Firm x) (h : collapse x = x) (s : Text) :
    collapse (x ++ s) = x ++ collapse s := by
  simpa [h, Text.collapse] using hx.collapse_append [] s

theorem Firm.collapse {x : Text} (hx : Firm x) : Firm (collapse x) := by
  obtain ⟨c, cs, rfl, hc⟩ := hx.cons_eq
  obtain ⟨xs, d, hxd, hd⟩ := hx.append_eq
  refine ⟨by simp [collapse_eq_nil], fun e he => ?_, fun e he => ?_⟩
  · rw [collapse_cons_of_not_space hc] at he
    obtain rfl := Option.some.inj he
    exact hc
  · rw [hxd, collapse_append_cons hd] at he
    simp only [List.getLast?_append_cons, Text.collapse, List.getLast?_singleton] at he
    obtain rfl := Option.some.inj he
    exact hd

/-- White space around a tidy text stays white space around it. -/
theorem exists_collapse_append_append {g x g' : Text} (hx : x = [] ∨ Firm x) (htidy : Tidy x)
    (hg : Blank g) (hg' : Blank g') :
    ∃ a b, Blank a ∧ Blank b ∧ (x ≠ [] → b = collapse g') ∧
      collapse (g ++ x ++ g') = a ++ x ++ b := by
  rcases hx with rfl | hx
  · refine ⟨collapse (g ++ g'), [], (hg.append hg').collapse, Blank.nil,
      fun hne => absurd rfl hne, ?_⟩
    rw [List.append_nil, List.append_nil, List.append_nil]
  · refine ⟨collapse g, collapse g', hg.collapse, hg'.collapse, fun _ => rfl, ?_⟩
    rw [hx.collapse_append, collapse_eq_self htidy]

theorem collapse_append_append {g g' x : Text} (hx : x = [] ∨ Firm x)
    (hg : Blank g) (hg' : Blank g') : trim (collapse (g ++ x ++ g')) = collapse x := by
  rcases hx with rfl | hx
  · rw [List.append_nil]
    simpa [collapse] using trim_append_append (hg.append hg').collapse Blank.nil (.inl rfl)
  · rw [hx.collapse_append]
    exact trim_append_append hg.collapse hg'.collapse (.inr hx.collapse)

theorem trim_collapse (s : Text) : trim (collapse s) = collapse (trim s) := by
  obtain ⟨g, g', hg, hg', h⟩ := exists_blank_trim_blank s
  have := collapse_append_append (trim_eq_nil_or_firm s) hg hg'
  rwa [← h] at this

/-! ### What collapsing keeps -/

/-- Collapsing neither loses nor adds a character other than white space. -/
theorem count_collapse {c : Char} (hc : isSpace c = false) (s : Text) :
    (collapse s).count c = s.count c := by
  have hne : ∀ {d : Char}, isSpace d = true → (d == c) = false := by
    intro d hd
    rw [beq_eq_false_iff_ne]
    rintro rfl
    rw [hc] at hd
    cases hd
  induction s with
  | nil => rfl
  | cons x s ih =>
      cases h : collapse s with
      | nil =>
          rw [collapse_eq_nil.mp h]
          rfl
      | cons d out =>
          rw [collapse_cons_of_eq_cons h, List.count_cons, ← ih, h]
          split
          · rename_i hxd
            rw [Bool.and_eq_true] at hxd
            simp [List.count_cons, hne hxd.1, hne hxd.2, hne isSpace_space]
          · rw [List.count_cons]

theorem count_of_blank {c : Char} (hc : isSpace c = false) {g : Text} (hg : Blank g) :
    g.count c = 0 :=
  List.count_eq_zero.mpr fun h => by simp [hg c h] at hc

/-! ## Rows

A row is what stands behind the head of a line: texts in order, a space in front
of each. -/

/-- The texts in order, a space in front of each. -/
def row (ws : List Text) : Text := ws.flatMap (' ' :: ·)

@[simp] theorem row_nil : row [] = [] := rfl

@[simp] theorem row_cons (w : Text) (ws : List Text) : row (w :: ws) = ' ' :: (w ++ row ws) := rfl

@[simp] theorem row_append (ws vs : List Text) : row (ws ++ vs) = row ws ++ row vs := by
  simp [row]

theorem join_cons (w : Text) (ws : List Text) : join [' '] (w :: ws) = w ++ row ws := by
  induction ws generalizing w with
  | nil => simp [join]
  | cons v ws ih =>
      rw [join, List.intercalate_cons_cons, ← join, ih]
      simp

/-- A space and the joined texts are a row. -/
theorem space_join {ws : List Text} (h : ws ≠ []) : ' ' :: join [' '] ws = row ws := by
  cases ws with
  | nil => exact absurd rfl h
  | cons w ws => rw [join_cons, row_cons]

theorem Firm.trimRight_append {x : Text} (hx : Firm x) (a : Text) :
    Text.trimRight (a ++ x) = a ++ x := by
  obtain ⟨cs, c, rfl, hc⟩ := hx.append_eq
  rw [← List.append_assoc, trimRight_concat hc]

/-- A row of firm texts ends in no white space. -/
theorem trimRight_row {ws : List Text} (h : ∀ w ∈ ws, Firm w) (a : Text) (hne : ws ≠ []) :
    trimRight (a ++ row ws) = a ++ row ws := by
  obtain ⟨v, w, rfl⟩ := ws.eq_nil_or_concat.resolve_left hne
  rw [List.concat_eq_append, row_append, row_cons, row_nil, List.append_nil,
    ← List.singleton_append, ← List.append_assoc, ← List.append_assoc]
  exact (h w (by simp)).trimRight_append _

theorem trimRight_join {ws : List Text} (h : ∀ w ∈ ws, Firm w) :
    trimRight (join [' '] ws) = join [' '] ws := by
  cases ws with
  | nil => rfl
  | cons w ws =>
      rw [join_cons]
      by_cases hws : ws = []
      · subst hws
        rw [row_nil, List.append_nil]
        exact (h w List.mem_cons_self).trimRight
      · exact trimRight_row (fun v hv => h v (List.mem_cons_of_mem _ hv)) w hws

/-- Behind a character that is no white space anything tidy may follow. -/
theorem Tidy.append {x s : Text} (hx : Tidy x) (hs : Tidy s)
    (hlast : ∀ c, x.getLast? = some c → isSpace c = false) : Tidy (x ++ s) := by
  rw [Tidy, List.isChain_append]
  refine ⟨hx, hs, fun a ha b _ h => ?_⟩
  rw [hlast a ha] at h
  cases h

/-- A text that ends in no white space has no gap in common with what stands behind. -/
theorem tidy_append_iff {s t : Text} (h : ∀ c, s.getLast? = some c → isSpace c = false) :
    Tidy (s ++ t) ↔ Tidy s ∧ Tidy t :=
  ⟨fun hst => ⟨hst.left_of_append, hst.right_of_append⟩, fun hst => hst.1.append hst.2 h⟩

/-- Firm and tidy texts make a tidy row. -/
theorem tidy_row {ws : List Text} (h : ∀ w ∈ ws, Firm w ∧ Tidy w) : Tidy (row ws) := by
  induction ws with
  | nil => exact .nil
  | cons w ws ih =>
      obtain ⟨hw, htw⟩ := h w List.mem_cons_self
      have ih := ih fun v hv => h v (List.mem_cons_of_mem _ hv)
      obtain ⟨c, cs, rfl, hc⟩ := hw.cons_eq
      rw [row_cons, Tidy, List.cons_append, List.isChain_cons_cons]
      exact ⟨fun _ => hc, htw.append ih hw.last⟩

/-- A tidy row stands behind a head that ends in a space as if it brought no space of its own. -/
theorem collapse_append_row {h : Text} (hh : Tidy h)
    (hlast : ∀ c, h.getLast? = some c → isSpace c = false) {ws : List Text}
    (hws : ∀ w ∈ ws, Firm w ∧ Tidy w) :
    collapse (h ++ ' ' :: row ws) = h ++ ' ' :: join [' '] ws := by
  cases ws with
  | nil =>
      refine collapse_eq_self (hh.append ?_ hlast)
      exact .singleton _
  | cons w ws =>
      have hrow := space_join (List.cons_ne_nil w ws)
      rw [← hrow, collapse_congr_left h (collapse_space_cons isSpace_space _), hrow]
      exact collapse_eq_self (hh.append (tidy_row hws) hlast)

/-- A text of spaces collapses to one or none. -/
theorem collapse_spaces {s : Text} (h : ∀ c ∈ s, c = ' ') :
    collapse s = [] ∨ collapse s = [' '] := by
  induction s with
  | nil => exact .inl rfl
  | cons c s ih =>
      obtain rfl := h c List.mem_cons_self
      right
      rcases ih fun d hd => h d (List.mem_cons_of_mem _ hd) with h | h
      · rw [collapse, h]
      · rw [collapse_cons_of_eq_cons h]
        rfl

end TaskLine.Text
