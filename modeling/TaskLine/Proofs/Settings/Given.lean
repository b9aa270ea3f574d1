import Mathlib.Data.Nat.Digits.Defs
import TaskLine.Proofs.Settings.Reading

/-!
# Values given as text

A setting is changed by a text. The value that the text gives its key is a switch or a whole number
that is not negative (`Config.suits_of_valueFor`). Such a value is read back as it is, and it can
always be written: a number that was read from a text has no more digits than may be written
(`Text.exceedsDigits_of_parseInt`).
-/

namespace TaskLine

/-! ## Whole numbers -/

namespace Text

variable {s rest : Text} {ds : List Nat} {c : Char} {d n : Nat}

theorem Ranges.exists_of_start? {ranges : Ranges} {lo : Nat} (h : ranges.start? n = some lo) :
    ∃ hi, (lo, hi) ∈ ranges ∧ n ≤ hi := by
  induction ranges with
  | nil => cases h
  | cons r ranges ih =>
      rw [start?] at h
      split at h
      · cases h
      split at h
      · rename_i hle
        exact ⟨r.2, Option.some.inj h ▸ List.mem_cons_self, hle⟩
      · obtain ⟨hi, hmem, hle⟩ := ih h
        exact ⟨hi, List.mem_cons_of_mem _ hmem, hle⟩

theorem digitValue?_lt (h : digitValue? c = some d) : d < 10 := by
  obtain ⟨lo, hlo, rfl⟩ := Option.map_eq_some_iff.mp h
  obtain ⟨hi, hmem, hle⟩ := Ranges.exists_of_start? hlo
  have hwidth : ∀ r ∈ digitRanges, r.2 = r.1 + 9 := by decide
  have := hwidth _ hmem
  omega

theorem digitRun?_lt (h : digitRun? s = some (ds, rest)) : ∀ d ∈ ds, d < 10 := by
  have hcons : ∀ {d : Nat} {cs : Text} {ds : List Nat} {rest : Text}, d < 10 →
      (∀ {ds rest}, digitRun? cs = some (ds, rest) → ∀ d ∈ ds, d < 10) →
      ((digitRun? cs).map fun r => (d :: r.1, r.2)) = some (ds, rest) → ∀ d ∈ ds, d < 10 := by
    intro d cs ds rest hd ih h
    obtain ⟨r, hr, heq⟩ := Option.map_eq_some_iff.mp h
    obtain ⟨rfl, rfl⟩ := Prod.mk.inj heq
    exact List.forall_mem_cons.mpr ⟨hd, ih hr⟩
  fun_induction digitRun? s generalizing ds rest with
  | case1 => cases h
  | case2 c cs ih =>
      obtain ⟨d, hd, h⟩ := Option.bind_eq_some_iff.mp h
      exact hcons (digitValue?_lt hd) ih h
  | case3 c cs _ _ d hd ih => exact hcons (digitValue?_lt hd) ih h
  | case4 | case5 =>
      obtain ⟨rfl, -⟩ := Prod.mk.inj (Option.some.inj h)
      exact nofun

/-- The digits as the library has them, the last one first. -/
theorem ofDigits_eq (base : Nat) (ds : List Nat) :
    ofDigits base ds = Nat.ofDigits base ds.reverse := by
  rw [Nat.ofDigits_eq_foldr, List.foldr_reverse, ofDigits]
  simp only [Nat.cast_id, Nat.add_comm]

theorem lt_of_parseNat (h : parseNat s = .ok n) : n < 10 ^ digitLimit := by
  unfold parseNat at h
  split at h
  · cases h
  split at h
  · cases h
  rename_i ds rest hrun
  split at h
  · cases h
  rename_i hcount
  split at h
  · cases h
  obtain rfl := Except.ok.inj h
  rw [ofDigits_eq]
  have hdigits : ∀ d ∈ ds.reverse, d < 10 := fun d hd =>
    digitRun?_lt hrun d (List.mem_reverse.mp hd)
  calc Nat.ofDigits 10 ds.reverse
    _ < 10 ^ ds.reverse.length := Nat.ofDigits_lt_base_pow_length (by decide) hdigits
    _ ≤ 10 ^ digitLimit :=
      Nat.pow_le_pow_right (by decide) (List.length_reverse.trans_le (Nat.le_of_not_lt hcount))

theorem parseInt_eq (s : Text) : parseInt s =
    (parseNat (splitSign (s.dropWhile isMargin)).2).map
      (signed (splitSign (s.dropWhile isMargin)).1) := rfl

theorem natAbs_signed (negative : Bool) (n : Nat) : (signed negative n).natAbs = n := by
  unfold signed
  split
  · rw [Int.natAbs_neg, Int.natAbs_natCast]
  · exact Int.natAbs_natCast n

/-- A number that can be read can be written. -/
theorem exceedsDigits_of_parseInt {n : Int} (h : parseInt s = .ok n) : exceedsDigits n = false := by
  rw [parseInt_eq, map_eq_ok] at h
  obtain ⟨m, hm, rfl⟩ := h
  have hpow : ∀ k, Nat.pow 10 k = 10 ^ k := fun _ => rfl
  rw [exceedsDigits, decide_eq_false_iff_not, Nat.not_le, natAbs_signed, hpow]
  exact lt_of_parseNat hm

theorem splitSign_of_notMem (h : '-' ∉ s) : (splitSign s).1 = false := by
  unfold splitSign
  split
  · exact absurd List.mem_cons_self h
  · rfl
  · rfl

theorem nonneg_of_parseInt {n : Int} (hsign : '-' ∉ s) (h : parseInt s = .ok n) : 0 ≤ n := by
  rw [parseInt_eq, map_eq_ok] at h
  obtain ⟨m, -, rfl⟩ := h
  rw [splitSign_of_notMem fun hmem => hsign (List.dropWhile_subset _ hmem)]
  exact Int.natCast_nonneg m

end Text

/-! ## Values -/

namespace Setting

/-- A value that a key can be given: it is plain and is read as it is. -/
structure Suits (key : Text) (v : Setting) : Prop where
  plain : v.Plain
  reading : ∀ objects, readAs key objects (some v) = .ok v

theorem suits_bool {key : Text} (h : key ≠ Settings.delayKey) (b : Bool) : Suits key (.bool b) where
  plain := .bool b
  reading := fun _ => readAs_switch h _ _

theorem suits_int {n : Int} (hnonneg : 0 ≤ n) (hshort : Text.exceedsDigits n = false) :
    Suits Settings.delayKey (.int n) where
  plain := .int n hshort
  reading := fun objects => by
    rw [readAs_delay]
    exact congrArg (Except.ok ∘ Yaml.Value.int) (if_pos hnonneg)

end Setting

namespace Config

variable {key given item : Text} {v : Setting}

theorem suits_of_valueFor (h : valueFor key given = .ok v) :
    key ∈ Settings.keys ∧ v.Suits key := by
  unfold valueFor at h
  dsimp only at h
  split at h
  · rename_i hkey
    have hkey := List.contains_iff_mem.mp hkey
    have hdelay : ∀ key ∈ [Settings.enabledKey, Settings.lineCommitKey, Settings.leafChangeKey],
        key ∈ Settings.keys ∧ key ≠ Settings.delayKey := by decide
    obtain ⟨hmem, hne⟩ := hdelay key hkey
    split at h
    · exact ⟨hmem, Except.ok.inj h ▸ Setting.suits_bool hne _⟩
    · cases h
  split at h
  · rename_i hkey
    split at h
    · cases h
    rename_i hdigits
    split at h
    · rename_i n hparse
      have hsign : '-' ∉ Text.trim given := by
        intro hmem
        rw [Bool.not_eq_true, Bool.or_eq_false_iff, Bool.not_eq_false'] at hdigits
        exact absurd (List.all_eq_true.mp hdigits.2 _ hmem) (by decide)
      refine ⟨hkey ▸ by decide, hkey ▸ Except.ok.inj h ▸ ?_⟩
      exact Setting.suits_int (Text.nonneg_of_parseInt hsign hparse)
        (Text.exceedsDigits_of_parseInt hparse)
    · cases h
    · cases h
  · cases h

end Config

end TaskLine
