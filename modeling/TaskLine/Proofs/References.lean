import TaskLine.Markup.Build
import TaskLine.Text.Digits

/-!
# Character references

Escaped text is written for readers that know character references: a name or a number behind an
ampersand, with a semicolon at its end that may be missing. Most of what the names and numbers stand
for makes no difference here (`References`). An escaped text uses four names and one number, each
with its semicolon, and is read as the text that was escaped (`unescape_escape`).
-/

namespace TaskLine.Markup

/-- What character references stand for. -/
structure References where
  /-- What a name stands for. The semicolon at its end, if there is one, is a part of the name. -/
  named? : Text → Option Text
  numbered : Nat → Text
  amp : named? "amp;".toList = some ['&']
  lt : named? "lt;".toList = some ['<']
  gt : named? "gt;".toList = some ['>']
  quot : named? "quot;".toList = some ['"']
  apostrophe : numbered 39 = ['\'']

/-! ## Reading references -/

/-- The characters in the name of a reference. -/
def isReferenceChar (c : Char) : Bool :=
  !List.contains ['\t', '\n', '\x0c', ' ', '<', '&', '#', ';'] c

/-- A length with the semicolon that may stand there. -/
def withSemicolon (s : Text) (n : Nat) : Nat := if (s.drop n).head? = some ';' then n + 1 else n

def decimalValue? (c : Char) : Option Nat :=
  if Text.isAsciiDigit c then some (c.toNat - 48) else none

namespace References

variable (refs : References)

/-- A number in front of a text: what it stands for, and how many characters it takes. -/
def byNumber? (base : Nat) (digit? : Char → Option Nat) (s : Text) : Option (Text × Nat) :=
  let digits := s.takeWhile fun c => (digit? c).isSome
  if digits.isEmpty then none
  else some (refs.numbered (Text.ofDigits base (digits.filterMap digit?)),
    withSemicolon s digits.length)

/-- A name in front of a text: what it stands for, and how many characters it takes. A name that is
not known may begin with one that is; the longest of these counts. -/
def byName? (s : Text) : Option (Text × Nat) :=
  let letters := (s.take 32).takeWhile isReferenceChar
  let n := withSemicolon s letters.length
  if letters.isEmpty then none
  else (n :: (List.range' 2 (n - 2)).reverse).findSome? fun k =>
    (refs.named? (s.take k)).map (·, k)

/-- What stands behind an ampersand: what it stands for, and how many characters it takes. -/
def reference? (s : Text) : Option (Text × Nat) :=
  match s with
  | '#' :: c :: cs =>
    if c = 'x' ∨ c = 'X' then (refs.byNumber? 16 Text.hexValue? cs).map fun r => (r.1, r.2 + 2)
    else (refs.byNumber? 10 decimalValue? (c :: cs)).map fun r => (r.1, r.2 + 1)
  | s => refs.byName? s

/-- A text with what its references stand for; the first `skip` characters belong to one that was
read already. -/
def unescapeFrom : Nat → Text → Text
  | _, [] => []
  | skip + 1, _ :: cs => unescapeFrom skip cs
  | 0, c :: cs =>
    match if c = '&' then refs.reference? cs else none with
    | some (v, n) => v ++ unescapeFrom n cs
    | none => c :: unescapeFrom 0 cs

/-- A text with what its references stand for. -/
def unescape (s : Text) : Text := refs.unescapeFrom 0 s

/-! ## Escaped text -/

variable {refs} {letters v : Text}

theorem unescapeFrom_skip (u t : Text) :
    refs.unescapeFrom u.length (u ++ t) = refs.unescape t := by
  induction u with
  | nil => rfl
  | cons c u ih => exact ih

theorem unescape_cons {c : Char} (hc : c ≠ '&') (t : Text) :
    refs.unescape (c :: t) = c :: refs.unescape t := by
  rw [unescape, unescapeFrom, if_neg hc]
  rfl

/-- A reference with its semicolon is read, whatever follows. -/
theorem unescape_reference (t : Text)
    (h : refs.reference? (letters ++ t) = some (v, letters.length)) :
    refs.unescape ('&' :: (letters ++ t)) = v ++ refs.unescape t := by
  rw [unescape, unescapeFrom, if_pos rfl, h]
  exact congrArg (v ++ ·) (unescapeFrom_skip letters t)

theorem reference?_name (hne : letters ≠ []) (hletters : ∀ c ∈ letters, isReferenceChar c = true)
    (hlength : letters.length < 32) (hnamed : refs.named? (letters ++ [';']) = some v) (t : Text) :
    refs.reference? ((letters ++ [';']) ++ t) = some (v, (letters ++ [';']).length) := by
  have hread : ((letters ++ [';'] ++ t).take 32).takeWhile isReferenceChar = letters := by
    obtain ⟨k, hk⟩ := Nat.exists_eq_add_of_lt hlength
    rw [List.append_assoc, List.take_append, List.take_of_length_le (Nat.le_of_lt hlength),
      show 32 - letters.length = k + 1 by omega, List.takeWhile_append_of_pos hletters,
      List.singleton_append, List.take_succ_cons, List.takeWhile_cons_of_neg (by decide),
      List.append_nil]
  have hend : withSemicolon (letters ++ [';'] ++ t) letters.length = (letters ++ [';']).length := by
    rw [withSemicolon, List.append_assoc, List.drop_left, List.length_append]
    exact if_pos rfl
  have hname : refs.reference? (letters ++ [';'] ++ t) = refs.byName? (letters ++ [';'] ++ t) := by
    obtain ⟨c, cs, rfl⟩ := List.exists_cons_of_ne_nil hne
    have hc : c ≠ '#' := by
      rintro rfl
      exact absurd (hletters '#' List.mem_cons_self) (by decide)
    rw [reference?.eq_def]
    split
    next heq => exact absurd (List.cons.inj heq).1 hc
    next => rfl
  rw [hname, byName?, hread, hend, if_neg (by simpa using hne), List.findSome?_cons, List.take_left,
    hnamed]
  rfl

/-- Escaped text is read as the text that was escaped. -/
theorem unescape_escape (s : Text) : refs.unescape (escape s) = s := by
  induction s with
  | nil => rfl
  | cons c s ih =>
      have hnamed : ∀ letters : Text, letters ≠ [] → (∀ c ∈ letters, isReferenceChar c = true) →
          letters.length < 32 → refs.named? (letters ++ [';']) = some [c] →
          refs.unescape ('&' :: ((letters ++ [';']) ++ escape s)) = c :: s := by
        intro letters hne hletters hlength hnamed
        rw [unescape_reference _ (reference?_name hne hletters hlength hnamed _), ih]
        rfl
      rw [escape, List.flatMap_cons, ← escape, escapeChar]
      split
      next hc => exact hnamed "amp".toList (by decide) (by decide) (by decide) (hc ▸ refs.amp)
      split
      next hc => exact hnamed "lt".toList (by decide) (by decide) (by decide) (hc ▸ refs.lt)
      split
      next hc => exact hnamed "gt".toList (by decide) (by decide) (by decide) (hc ▸ refs.gt)
      split
      next hc => exact hnamed "quot".toList (by decide) (by decide) (by decide) (hc ▸ refs.quot)
      split
      next hc =>
        have hnumber : refs.reference? ("#x27;".toList ++ escape s) = some ([c], 5) := by
          rw [hc, ← refs.apostrophe]
          rfl
        exact (unescape_reference _ hnumber).trans (congrArg (c :: ·) ih)
      next hc _ _ _ _ => exact (unescape_cons hc _).trans (congrArg (c :: ·) ih)

end References

end TaskLine.Markup
