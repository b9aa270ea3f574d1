import TaskLine.Proofs.TrailingSpace

/-!
# The key attribute in a text

The scanner takes a tag for the opening of a wrapper when it finds the key attribute somewhere in
it. Here this is said without the search: the name of the attribute, in any letter case, stands
where a word can begin, and an equals sign follows it with at most white space between
(`carriesKey_iff`). The search knows nothing of quotes, but it never gets past one
(`carriesKeyFrom_append_quote`), so what it finds in a tag it finds in one of the pieces between the
quotes.
-/

namespace TaskLine

namespace Text

/-- A word can begin behind this character, or at the front of a text. -/
def WordsBegin (before : Option Char) : Prop := ∀ c, before = some c → isWordChar c = false

instance (before : Option Char) : Decidable (WordsBegin before) :=
  inferInstanceAs (Decidable (∀ c, before = some c → isWordChar c = false))

/-- The white space characters by their numbers. -/
theorem toNat_mem_of_isSpace {c : Char} (h : isSpace c = true) :
    c.toNat ∈ List.range' 9 5 ++ List.range' 28 5 ++ List.range' 0x2000 11 ++
      [0x85, 0xA0, 0x1680, 0x2028, 0x2029, 0x202F, 0x205F, 0x3000] := by
  simp only [isSpace, Bool.or_eq_true, Bool.and_eq_true, decide_eq_true_eq, beq_iff_eq] at h
  simp only [List.mem_append, List.mem_range'_1, List.mem_cons, List.not_mem_nil, or_false]
  omega

/-- White space is no part of a word. -/
theorem isWordChar_of_isSpace {c : Char} (h : isSpace c = true) : isWordChar c = false := by
  have hall : ∀ n ∈ List.range' 9 5 ++ List.range' 28 5 ++ List.range' 0x2000 11 ++
      [0x85, 0xA0, 0x1680, 0x2028, 0x2029, 0x202F, 0x205F, 0x3000],
      isWordChar (Char.ofNat n) = false := by
    decide +kernel
  rw [← Char.ofNat_toNat c]
  exact hall _ (toNat_mem_of_isSpace h)

theorem boundary_iff {before : Option Char} {c : Char} (hc : isWordChar c = true) :
    boundary before c = true ↔ WordsBegin before := by
  cases before with
  | none => simp [boundary, WordsBegin, hc]
  | some d => simp [boundary, WordsBegin, hc]

theorem getLast?_cons_or (c : Char) (u : Text) (before : Option Char) :
    (c :: u).getLast?.or before = u.getLast?.or (some c) := by
  rw [List.getLast?_cons]
  cases u.getLast? <;> rfl

theorem afterFold?_map_lowerAscii (s : Text) : afterFold? (s.map lowerAscii) s = some [] := by
  induction s with
  | nil => rfl
  | cons c s ih => rw [List.map_cons, afterFold?, if_pos (by simp [foldsTo]), ih]

theorem afterFold?_eq_some_iff {p s r : Text} :
    afterFold? p s = some r ↔ ∃ x, s = x ++ r ∧ afterFold? p x = some [] := by
  induction p generalizing s with
  | nil =>
      constructor
      · exact fun h => ⟨[], Option.some.inj h, rfl⟩
      · rintro ⟨x, rfl, hx⟩
        obtain rfl : x = [] := Option.some.inj hx
        rfl
  | cons a p ih =>
      constructor
      · intro h
        cases s with
        | nil => cases h
        | cons c s =>
            rw [afterFold?] at h
            split at h
            · rename_i hc
              obtain ⟨x, rfl, hx⟩ := ih.mp h
              exact ⟨c :: x, rfl, by rw [afterFold?, if_pos hc, hx]⟩
            · cases h
      · rintro ⟨x, rfl, hx⟩
        cases x with
        | nil => cases hx
        | cons c x =>
            rw [afterFold?] at hx
            split at hx
            · rename_i hc
              rw [List.cons_append, afterFold?, if_pos hc]
              exact ih.mpr ⟨x, rfl, hx⟩
            · cases hx

/-- What a text begins with up to case is settled before a character of no case that is not looked
for. -/
theorem afterFold?_append_cons {p : Text} {d : Char} (hp : ∀ a ∈ p, foldsTo a d = false)
    (s t : Text) : afterFold? p (s ++ d :: t) = (afterFold? p s).map (· ++ d :: t) := by
  induction p generalizing s with
  | nil => cases s <;> rfl
  | cons a p ih =>
      obtain ⟨ha, hp⟩ := List.forall_mem_cons.mp hp
      cases s with
      | nil => simp [afterFold?, ha]
      | cons c s =>
          rw [List.cons_append, afterFold?, afterFold?, ih hp]
          split <;> rfl

end Text

namespace Markup

open Text (Blank WordsBegin isWordChar isSpace)

/-- A text is the name of the key attribute, in any letter case. -/
def SpellsKey (x : Text) : Prop := Text.afterFold? keyName x = some []

/-- The key attribute stands in a text: its name where a word can begin, and an equals sign behind
it with at most white space between. -/
def KeyStands (s : Text) : Prop :=
  ∃ u x g r, s = u ++ (x ++ (g ++ '=' :: r)) ∧ WordsBegin u.getLast? ∧ SpellsKey x ∧ Blank g

theorem beginsKey_iff {s : Text} :
    beginsKey s = true ↔ ∃ x g r, s = x ++ (g ++ '=' :: r) ∧ SpellsKey x ∧ Blank g := by
  constructor
  · intro h
    rw [beginsKey] at h
    cases hafter : Text.afterFold? keyName s with
    | none => simp [hafter] at h
    | some rest =>
        rw [hafter] at h
        obtain ⟨x, rfl, hx⟩ := Text.afterFold?_eq_some_iff.mp hafter
        obtain ⟨r, hr⟩ := List.head?_eq_some_iff.mp (decide_eq_true_iff.mp h)
        refine ⟨x, rest.takeWhile isSpace, r, ?_, hx, fun c hc => ?_⟩
        · rw [← hr, Text.trimLeft, List.takeWhile_append_dropWhile]
        · exact List.mem_takeWhile_imp hc
  · rintro ⟨x, g, r, rfl, hx, hg⟩
    rw [beginsKey, Text.afterFold?_eq_some_iff.mpr ⟨x, rfl, hx⟩]
    dsimp only
    rw [Text.trimLeft_append hg, Text.trimLeft_cons (by decide)]
    rfl

/-- The key begins with a letter. -/
theorem isWordChar_of_beginsKey {c : Char} {s : Text} (h : beginsKey (c :: s) = true) :
    isWordChar c = true := by
  have hfold : Text.foldsTo 'd' c = true := by
    by_contra hfold
    rw [Bool.not_eq_true] at hfold
    have hnone : Text.afterFold? keyName (c :: s) = none :=
      if_neg (Bool.eq_false_iff.mp hfold)
    rw [beginsKey, hnone] at h
    cases h
  have hlower : Text.lowerAscii c = 'd' := by simpa [Text.foldsTo] using hfold
  have hletter : c = 'd' ∨ c = 'D' := by
    unfold Text.lowerAscii at hlower
    split at hlower
    · rename_i hupper
      have hval : c.toNat = c.val.toNat := rfl
      have hZ : ('Z' : Char).val.toNat = 90 := rfl
      simp only [Char.le_def, UInt32.le_iff_toNat_le] at hupper
      rw [Char.ofNat, dif_pos (.inl (by omega))] at hlower
      have hnat : c.toNat + 32 = 100 := congrArg Char.toNat hlower
      refine .inr (Char.toNat_inj.mp ?_)
      rw [show ('D' : Char).toNat = 68 from rfl]
      omega
    · exact .inl hlower
  rcases hletter with rfl | rfl <;> rfl

theorem carriesKeyFrom_iff {before : Option Char} {s : Text} :
    carriesKeyFrom before s = true ↔
      ∃ u v, s = u ++ v ∧ WordsBegin (u.getLast?.or before) ∧ beginsKey v = true := by
  induction s generalizing before with
  | nil =>
      constructor
      · exact nofun
      · rintro ⟨u, v, huv, -, hv⟩
        rw [(List.append_eq_nil_iff.mp huv.symm).2] at hv
        cases hv
  | cons c s ih =>
      rw [carriesKeyFrom, Bool.or_eq_true, Bool.and_eq_true, ih]
      constructor
      · rintro (⟨hbegin, hkey⟩ | ⟨u, v, rfl, hbegin, hkey⟩)
        · exact ⟨[], _, rfl, (Text.boundary_iff (isWordChar_of_beginsKey hkey)).mp hbegin, hkey⟩
        · exact ⟨c :: u, v, rfl, by rwa [Text.getLast?_cons_or], hkey⟩
      · rintro ⟨u, v, huv, hbegin, hkey⟩
        cases u with
        | nil =>
            rw [List.nil_append] at huv
            rw [← huv] at hkey
            exact .inl ⟨(Text.boundary_iff (isWordChar_of_beginsKey hkey)).mpr hbegin, hkey⟩
        | cons d u =>
            obtain ⟨rfl, rfl⟩ := List.cons_eq_cons.mp huv
            rw [Text.getLast?_cons_or] at hbegin
            exact .inr ⟨u, v, rfl, hbegin, hkey⟩

/-- The search finds the key attribute where it stands, and nothing else. -/
theorem carriesKey_iff {s : Text} : carriesKey s = true ↔ KeyStands s := by
  rw [carriesKey, carriesKeyFrom_iff]
  constructor
  · rintro ⟨u, v, rfl, hbegin, hkey⟩
    obtain ⟨x, g, r, rfl, hx, hg⟩ := beginsKey_iff.mp hkey
    rw [Option.or_none] at hbegin
    exact ⟨u, x, g, r, rfl, hbegin, hx, hg⟩
  · rintro ⟨u, x, g, r, rfl, hbegin, hx, hg⟩
    exact ⟨u, _, rfl, by rwa [Option.or_none], beginsKey_iff.mpr ⟨x, g, r, rfl, hx, hg⟩⟩

instance (s : Text) : Decidable (KeyStands s) := decidable_of_iff _ carriesKey_iff

/-! ## Pieces of a tag -/

/-- Behind a character that belongs to no word the search is as at the front of a text. -/
theorem carriesKeyFrom_some {d : Char} (hd : isWordChar d = false) (s : Text) :
    carriesKeyFrom (some d) s = carriesKey s := by
  cases s with
  | nil => rfl
  | cons c s =>
      rw [carriesKey, carriesKeyFrom, carriesKeyFrom, Text.boundary, Text.boundary,
        Option.map_some, Option.getD_some, hd]
      rfl

theorem beginsKey_append_quote (s t : Text) : beginsKey (s ++ '"' :: t) = beginsKey s := by
  rw [beginsKey, beginsKey, Text.afterFold?_append_cons (by decide)]
  cases Text.afterFold? keyName s with
  | none => rfl
  | some rest =>
      rw [Option.map_some]
      dsimp only
      by_cases hblank : Blank rest
      · rw [Text.trimLeft_append hblank, Text.trimLeft_blank hblank,
          Text.trimLeft_cons (by decide)]
        rfl
      · -- the first character that is no white space stands in front of the quote
        have hne : Text.trimLeft rest ≠ [] := fun hnil =>
          hblank (List.dropWhile_eq_nil_iff.mp hnil)
        have hsplit : Text.trimLeft (rest ++ '"' :: t) = Text.trimLeft rest ++ '"' :: t := by
          rw [Text.trimLeft] at hne ⊢
          rw [List.dropWhile_append, if_neg fun h => hne (List.isEmpty_iff.mp h), Text.trimLeft]
        rw [hsplit, List.head?_append_of_ne_nil _ hne]

/-- The key attribute is not found across a quote. -/
theorem carriesKeyFrom_append_quote (before : Option Char) (s t : Text) :
    carriesKeyFrom before (s ++ '"' :: t) =
      (carriesKeyFrom before s || carriesKey t) := by
  induction s generalizing before with
  | nil =>
      have hnone : beginsKey ('"' :: t) = false := beginsKey_append_quote [] t
      rw [List.nil_append, carriesKeyFrom, carriesKeyFrom, hnone, Bool.and_false,
        carriesKeyFrom_some (by decide +kernel)]
  | cons c s ih =>
      have hbegins := beginsKey_append_quote (c :: s) t
      rw [List.cons_append] at hbegins ⊢
      rw [carriesKeyFrom, carriesKeyFrom, hbegins, ih, Bool.or_assoc]

end Markup

end TaskLine
