import TaskLine.DateToken
import TaskLine.Proofs.Spacing

/-!
# The spelling of date tokens

The seven shapes of date tokens as a grammar (`Shape.Spelled`), and the proof
that the recognisers read its parts. A spelled token begins with a mark and has
no other in it, so no token can begin inside another; and no text begins with
tokens of two shapes (`Shape.lead?_of_after?`).

The hidden part of a spelled token holds no mark and no `<`. The recognisers
accept more than that, a folder list with a mark in it for example, and such a
token can be torn apart when tokens are taken out shape by shape.
-/

namespace TaskLine.DateToken

open Text (Blank Firm Tidy)

/-! ## Marks -/

/-- Whether a token can begin with this character. -/
def isMark (c : Char) : Bool := (Marker.ofChar? c).isSome || c = '💤'

/-- No token begins anywhere in the text. -/
def Unmarked (s : Text) : Prop := ∀ c ∈ s, isMark c = false

instance (s : Text) : Decidable (Unmarked s) :=
  inferInstanceAs (Decidable (∀ c ∈ s, isMark c = false))

theorem isMark_eq_true {c : Char} (h : isMark c = true) :
    c ∈ ['🛫', '⏳', '📅', '🎯', '✅', '❌', '💤'] := by
  simp only [isMark, Bool.or_eq_true, decide_eq_true_eq] at h
  rcases h with h | rfl
  · unfold Marker.ofChar? at h
    repeat' split at h
    all_goals simp_all
  · decide

/-- A character that a test tells from every mark is none. -/
theorem isMark_eq_false {p : Char → Bool} {c : Char} (hc : p c = true)
    (hp : ∀ m ∈ ['🛫', '⏳', '📅', '🎯', '✅', '❌', '💤'], p m = false) : isMark c = false := by
  by_contra h
  rw [Bool.not_eq_false] at h
  rw [hp c (isMark_eq_true h)] at hc
  cases hc

theorem isMark_of_isSpace {c : Char} (h : Text.isSpace c = true) : isMark c = false :=
  isMark_eq_false h (by decide)

theorem isSpace_of_isMark {c : Char} (h : isMark c = true) : Text.isSpace c = false := by
  by_contra hc
  rw [Bool.not_eq_false] at hc
  rw [isMark_of_isSpace hc] at h
  cases h

theorem Unmarked.append {s t : Text} (hs : Unmarked s) (ht : Unmarked t) : Unmarked (s ++ t) := by
  intro c hc
  rcases List.mem_append.mp hc with h | h
  · exact hs c h
  · exact ht c h

theorem unmarked_of_blank {g : Text} (hg : Blank g) : Unmarked g :=
  fun c hc => isMark_of_isSpace (hg c hc)

theorem Unmarked.collapse {s : Text} (h : Unmarked s) : Unmarked (Text.collapse s) := by
  intro c hc
  by_cases hs : Text.isSpace c = true
  · exact isMark_of_isSpace hs
  · rw [Bool.not_eq_true] at hs
    have := List.count_pos_iff.mpr hc
    rw [Text.count_collapse hs] at this
    exact h c (List.count_pos_iff.mp this)

/-! ## The grammar -/

/-- So many ASCII digits. -/
def Digits (n : Nat) (s : Text) : Prop := s.length = n ∧ ∀ c ∈ s, Text.isAsciiDigit c = true

/-- A date of four, two and two digits with hyphens between. -/
def IsDate (s : Text) : Prop :=
  ∃ y m d, Digits 4 y ∧ Digits 2 m ∧ Digits 2 d ∧ s = y ++ '-' :: (m ++ '-' :: d)

/-- White space and a date. -/
def SpacedDate (s : Text) : Prop := ∃ g d, Blank g ∧ g ≠ [] ∧ IsDate d ∧ s = g ++ d

/-- What may be hidden in a token: no mark and no `<`. -/
def Hidden (s : Text) : Prop := Unmarked s ∧ '<' ∉ s

/-- A snooze with this mark for a hidden name, and a date. -/
def SpelledName (mark t : Text) : Prop :=
  ∃ name r, Hidden name ∧ name ≠ [] ∧ SpacedDate r ∧
    t = mark ++ (hiddenOpen ++ (name ++ (hiddenClose ++ r)))

/-- A snooze with this mark for a hidden list of folders. -/
def SpelledFolders (mark t : Text) : Prop :=
  ∃ list, Hidden list ∧
    t = mark ++ (folderMark ++ (hiddenOpen ++ '[' :: (list ++ ']' :: hiddenClose)))

/-- The tokens of a shape. -/
def Shape.Spelled : Shape → Text → Prop
  | .dated, t => ∃ m r, (Marker.ofChar? m).isSome = true ∧ SpacedDate r ∧ t = m :: r
  | .snoozeName, t => SpelledName snoozeMark t
  | .snoozeAllName, t => SpelledName snoozeAllMark t
  | .snoozeFolders, t => SpelledFolders snoozeMark t
  | .snoozeAllFolders, t => SpelledFolders snoozeAllMark t
  | .snooze, t => t = snoozeMark
  | .snoozeAll, t => t = snoozeAllMark

/-! ## The recognisers read the grammar -/

theorem after?_append (p s : Text) : Text.after? p (p ++ s) = some s := by
  induction p with
  | nil => cases s <;> rfl
  | cons c p ih => simp [Text.after?, ih]

theorem afterDigits?_append {n : Nat} {s : Text} (h : Digits n s) (u : Text) :
    afterDigits? n (s ++ u) = some u := by
  obtain ⟨rfl, h⟩ := h
  induction s with
  | nil => cases u <;> rfl
  | cons c s ih =>
      rw [List.length_cons, List.cons_append, afterDigits?, if_pos (h c List.mem_cons_self)]
      exact ih fun d hd => h d (List.mem_cons_of_mem _ hd)

theorem IsDate.afterDate? {d : Text} (h : IsDate d) (u : Text) : afterDate? (d ++ u) = some u := by
  obtain ⟨y, m, d, hy, hm, hd, rfl⟩ := h
  simp only [DateToken.afterDate?, List.append_assoc, List.cons_append, afterDigits?_append hy,
    Option.bind_some, Text.after?, if_true, afterDigits?_append hm, afterDigits?_append hd]

theorem isSpace_of_isAsciiDigit {c : Char} (h : Text.isAsciiDigit c = true) :
    Text.isSpace c = false := by
  simp only [Text.isAsciiDigit, Bool.and_eq_true, decide_eq_true_eq, Char.le_def,
    UInt32.le_iff_toNat_le] at h
  have hlo : 48 ≤ c.toNat := h.1
  have hhi : c.toNat ≤ 57 := h.2
  simp only [Text.isSpace, Bool.or_eq_false_iff, Bool.and_eq_false_iff,
    decide_eq_false_iff_not, beq_eq_false_iff_ne]
  omega

theorem IsDate.firm {d : Text} (h : IsDate d) : Firm d := by
  obtain ⟨y, m, d, ⟨hy, hdy⟩, -, ⟨hd, hdd⟩, rfl⟩ := h
  refine ⟨by simp, fun c hc => ?_, fun c hc => ?_⟩
  · cases y with
    | nil => cases hy
    | cons a y =>
        obtain rfl := Option.some.inj hc
        exact isSpace_of_isAsciiDigit (hdy _ List.mem_cons_self)
  · rw [← List.cons_append, ← List.append_assoc, List.getLast?_append,
      List.getLast?_cons] at hc
    cases h : d.getLast? with
    | none => simp [List.getLast?_eq_none_iff.mp h] at hd
    | some e =>
        rw [h] at hc
        obtain rfl := Option.some.inj hc
        exact isSpace_of_isAsciiDigit (hdd _ (List.mem_of_getLast? h))

theorem SpacedDate.afterSpacedDate? {r : Text} (h : SpacedDate r) (u : Text) :
    afterSpacedDate? (r ++ u) = some u := by
  obtain ⟨g, d, hg, hne, hd, rfl⟩ := h
  obtain ⟨c, g, rfl⟩ := List.exists_cons_of_ne_nil hne
  have htrim : Text.trimLeft (g ++ (d ++ u)) = d ++ u := by
    rw [Text.trimLeft_append fun c hc => hg c (List.mem_cons_of_mem _ hc)]
    obtain ⟨e, ds, rfl, he⟩ := hd.firm.cons_eq
    exact Text.trimLeft_cons he _
  rw [List.append_assoc, List.cons_append, DateToken.afterSpacedDate?,
    if_pos (hg c List.mem_cons_self), htrim, hd.afterDate?]

theorem takeWhile_dropWhile_hidden {name : Text} (h : '<' ∉ name) (u : Text) :
    (name ++ '<' :: u).takeWhile (· ≠ '<') = name ∧
      (name ++ '<' :: u).dropWhile (· ≠ '<') = '<' :: u := by
  have hne : ∀ c ∈ name, decide (c ≠ '<') = true := by
    intro c hc
    simp only [ne_eq, decide_eq_true_eq]
    rintro rfl
    exact h hc
  rw [List.takeWhile_append_of_pos hne, List.dropWhile_append_of_pos hne]
  simp

theorem afterHiddenName?_append {name : Text} (h : '<' ∉ name) (hne : name ≠ []) (u : Text) :
    afterHiddenName? (hiddenOpen ++ (name ++ (hiddenClose ++ u))) = some u := by
  have hcut := takeWhile_dropWhile_hidden h ("/span>".toList ++ u)
  have hclose : hiddenClose ++ u = '<' :: ("/span>".toList ++ u) := rfl
  rw [afterHiddenName?, after?_append, Option.bind_some, hclose, hcut.1, hcut.2,
    if_neg (by simpa using hne), ← hclose, after?_append]

/-- The list ends at the first bracket that the closing tag follows. -/
theorem find?_close {list : Text} (h : '<' ∉ list) (u : Text) :
    Text.find? (']' :: hiddenClose) (list ++ ']' :: (hiddenClose ++ u)) = some list.length := by
  induction list with
  | nil =>
      rw [List.nil_append, Text.find?, ← List.cons_append, after?_append]
      rfl
  | cons c list ih =>
      rw [List.mem_cons, not_or] at h
      have hnone : Text.after? (']' :: hiddenClose)
          (c :: (list ++ ']' :: (hiddenClose ++ u))) = none := by
        by_cases hc : ']' = c
        · rw [Text.after?, if_pos hc]
          cases list with
          | nil => rfl
          | cons d list =>
              have hd : '<' ≠ d := fun hd => h.2 (hd ▸ List.mem_cons_self)
              exact if_neg hd
        · rw [Text.after?, if_neg hc]
      rw [List.cons_append, Text.find?, hnone, ih h.2]
      simp

/-! ## No text begins with tokens of two shapes -/

theorem eq_append_of_after? {p s r : Text} (h : Text.after? p s = some r) : s = p ++ r := by
  induction p generalizing s with
  | nil =>
      rw [Text.after?.eq_def] at h
      exact Option.some.inj h
  | cons c p ih =>
      cases s with
      | nil => cases h
      | cons d s =>
          rw [Text.after?] at h
          split at h
          · rename_i hcd
            rw [hcd, ih h, List.cons_append]
          · cases h

/-- The shape that the character behind the mark of a snooze allows. -/
def behindMark? (name folders alone : Shape) (s : Text) : Option Shape :=
  match s.head? with
  | none => some alone
  | some c =>
    if c = '<' then some name
    else if c = '🗂' then some folders
    else if Text.isSpace c then some alone
    else none

/-- The only shape of which a token can stand at the front of a text, by its first characters. -/
def lead? : Text → Option Shape
  | [] => none
  | c :: cs =>
    if (Marker.ofChar? c).isSome then some .dated
    else if c = '💤' then
      match Text.after? ['⬇', '\ufe0f'] cs with
      | some rest => behindMark? .snoozeAllName .snoozeAllFolders .snoozeAll rest
      | none => behindMark? .snoozeName .snoozeFolders .snooze cs
    else none

theorem lead?_snoozeMark {s : Text} (h : s.head? ≠ some '⬇') :
    lead? (snoozeMark ++ s) = behindMark? .snoozeName .snoozeFolders .snooze s := by
  have hnone : Text.after? ['⬇', '\ufe0f'] s = none := by
    cases s with
    | nil => rfl
    | cons c s =>
        rw [Text.after?, if_neg]
        rintro rfl
        exact h rfl
  rw [snoozeMark, List.singleton_append, lead?, hnone]
  rfl

theorem lead?_snoozeAllMark (s : Text) :
    lead? (snoozeAllMark ++ s) =
      behindMark? .snoozeAllName .snoozeAllFolders .snoozeAll s := by
  have hsome := after?_append ['⬇', '\ufe0f'] s
  rw [show snoozeAllMark ++ s = '💤' :: (['⬇', '\ufe0f'] ++ s) from rfl, lead?, hsome]
  rfl

/-- What is read behind a mark is read of the rest that follows the mark. -/
theorem exists_append_of_bind_after? {α : Type} {mark s : Text} {read : Text → Option α}
    (h : ((Text.after? mark s).bind read).isSome = true) :
    ∃ rest, s = mark ++ rest ∧ (read rest).isSome = true := by
  obtain ⟨x, hx⟩ := Option.isSome_iff_exists.mp h
  obtain ⟨rest, hrest, hread⟩ := Option.bind_eq_some_iff.mp hx
  exact ⟨rest, eq_append_of_after? hrest, Option.isSome_iff_exists.mpr ⟨x, hread⟩⟩

theorem head?_of_afterHiddenName? {s : Text} (h : (afterHiddenName? s).isSome = true) :
    s.head? = some '<' := by
  obtain ⟨rest, rfl, -⟩ := exists_append_of_bind_after? h
  rfl

theorem head?_of_unglued? {s : Text} (h : (unglued? s).isSome = true) :
    s.head? = none ∨ ∃ c, s.head? = some c ∧ Text.isSpace c = true := by
  rw [unglued?] at h
  split at h
  · rename_i c hc
    refine .inr ⟨c, hc, ?_⟩
    split at h
    · assumption
    · cases h
  · rename_i hs
    exact .inl hs

theorem behindMark?_of_lt {name folders alone : Shape} {s : Text} (h : s.head? = some '<') :
    behindMark? name folders alone s = some name := by
  rw [behindMark?, h]
  rfl

theorem behindMark?_folderMark {name folders alone : Shape} (s : Text) :
    behindMark? name folders alone (folderMark ++ s) = some folders := rfl

theorem behindMark?_of_unglued {name folders alone : Shape} {s : Text}
    (h : s.head? = none ∨ ∃ c, s.head? = some c ∧ Text.isSpace c = true) :
    behindMark? name folders alone s = some alone := by
  rcases h with h | ⟨c, h, hc⟩
  · rw [behindMark?, h]
  · have hlt : c ≠ '<' := by rintro rfl; cases hc
    have hfolder : c ≠ '🗂' := by rintro rfl; cases hc
    simp [behindMark?, h, hlt, hfolder, hc]

/-- The hidden name opens behind the mark of a token that has one. -/
theorem head?_of_named {s : Text}
    (h : ((afterHiddenName? s).bind afterSpacedDate?).isSome = true) : s.head? = some '<' :=
  head?_of_afterHiddenName? (Option.isSome_of_isSome_bind h)

/-- What a token of some shape begins like. -/
theorem Shape.lead?_of_after? {sh : Shape} {s : Text} (h : (sh.after? s).isSome = true) :
    lead? s = some sh := by
  cases sh with
  | dated =>
      cases s with
      | nil => cases h
      | cons c s =>
          rw [Shape.after?] at h
          split at h
          · rename_i hc
            rw [lead?, if_pos hc]
          · cases h
  | snoozeName =>
      obtain ⟨rest, rfl, hrest⟩ := exists_append_of_bind_after? h
      have hlt := head?_of_named hrest
      rw [lead?_snoozeMark (by rw [hlt]; decide), behindMark?_of_lt hlt]
  | snoozeAllName =>
      obtain ⟨rest, rfl, hrest⟩ := exists_append_of_bind_after? h
      rw [lead?_snoozeAllMark, behindMark?_of_lt (head?_of_named hrest)]
  | snoozeFolders =>
      obtain ⟨rest, rfl, -⟩ := exists_append_of_bind_after? h
      rw [List.append_assoc, lead?_snoozeMark (by simp [folderMark]), behindMark?_folderMark]
  | snoozeAllFolders =>
      obtain ⟨rest, rfl, -⟩ := exists_append_of_bind_after? h
      rw [List.append_assoc, lead?_snoozeAllMark, behindMark?_folderMark]
  | snooze =>
      obtain ⟨rest, rfl, hrest⟩ := exists_append_of_bind_after? h
      have hend := head?_of_unglued? hrest
      rw [lead?_snoozeMark, behindMark?_of_unglued hend]
      rcases hend with hend | ⟨c, hend, hc⟩
      · simp [hend]
      · rw [hend]
        rintro hd
        obtain rfl := Option.some.inj hd
        cases hc
  | snoozeAll =>
      obtain ⟨rest, rfl, hrest⟩ := exists_append_of_bind_after? h
      rw [lead?_snoozeAllMark, behindMark?_of_unglued (head?_of_unglued? hrest)]

/-! ## Tokens in front of white space -/

/-- The text is empty or begins with white space. -/
def Unglued (u : Text) : Prop := ∀ c, u.head? = some c → Text.isSpace c = true

theorem unglued_nil : Unglued [] := by simp [Unglued]

theorem unglued_cons {c : Char} (hc : Text.isSpace c = true) (u : Text) : Unglued (c :: u) := by
  rintro d hd
  obtain rfl := Option.some.inj hd
  exact hc

theorem unglued_of_blank {g : Text} (hg : Blank g) : Unglued g :=
  fun c hc => hg c (List.mem_of_head? hc)

theorem Unglued.unglued? {u : Text} (h : Unglued u) : unglued? u = some u := by
  cases u with
  | nil => rfl
  | cons c u => simp [DateToken.unglued?, h c rfl]

/-! ## What a spelled token is made of -/

theorem Hidden.collapse {s : Text} (h : Hidden s) : Hidden (Text.collapse s) := by
  refine ⟨h.1.collapse, fun hlt => h.2 ?_⟩
  have := List.count_pos_iff.mpr hlt
  rw [Text.count_collapse (by decide)] at this
  exact List.count_pos_iff.mp this

theorem IsDate.mem {d : Text} (h : IsDate d) {c : Char} (hc : c ∈ d) :
    Text.isAsciiDigit c = true ∨ c = '-' := by
  obtain ⟨y, m, d, ⟨-, hy⟩, ⟨-, hm⟩, ⟨-, hd⟩, rfl⟩ := h
  simp only [List.mem_append, List.mem_cons] at hc
  rcases hc with hc | rfl | hc | rfl | hc
  · exact .inl (hy c hc)
  · exact .inr rfl
  · exact .inl (hm c hc)
  · exact .inr rfl
  · exact .inl (hd c hc)

theorem IsDate.collapse {d : Text} (h : IsDate d) : Text.collapse d = d := by
  refine Text.collapse_of_not_space fun c hc => ?_
  rcases h.mem hc with hc | rfl
  · exact isSpace_of_isAsciiDigit hc
  · decide

theorem IsDate.unmarked {d : Text} (h : IsDate d) : Unmarked d := by
  intro c hc
  rcases h.mem hc with hc | rfl
  · exact isMark_eq_false hc (by decide)
  · decide

theorem SpacedDate.unmarked {r : Text} (h : SpacedDate r) : Unmarked r := by
  obtain ⟨g, d, hg, -, hd, rfl⟩ := h
  exact (unmarked_of_blank hg).append hd.unmarked

theorem SpacedDate.collapse {r : Text} (h : SpacedDate r) : SpacedDate (Text.collapse r) := by
  obtain ⟨g, d, hg, hne, hd, rfl⟩ := h
  refine ⟨Text.collapse g, d, hg.collapse, fun h => hne (Text.collapse_eq_nil.mp h), hd, ?_⟩
  simpa [hd.collapse, Text.collapse] using hd.firm.collapse_append g []

theorem SpacedDate.exists_last {r : Text} (h : SpacedDate r) :
    ∃ s c, r = s ++ [c] ∧ Text.isSpace c = false := by
  obtain ⟨g, d, -, -, hd, rfl⟩ := h
  obtain ⟨s, c, rfl, hc⟩ := hd.firm.append_eq
  exact ⟨g ++ s, c, (List.append_assoc ..).symm, hc⟩

/-- A token begins with a mark and has no other. -/
theorem Shape.Spelled.exists_mark {sh : Shape} {t : Text} (h : sh.Spelled t) :
    ∃ m tail, t = m :: tail ∧ isMark m = true ∧ Unmarked tail := by
  have hname : ∀ {mark tail : Text}, mark = '💤' :: tail → Unmarked tail → SpelledName mark t →
      ∃ m tail, t = m :: tail ∧ isMark m = true ∧ Unmarked tail := by
    rintro mark tail rfl htail ⟨name, r, hname, -, hr, rfl⟩
    refine ⟨'💤', _, rfl, rfl, htail.append ?_⟩
    exact .append (by decide) (hname.1.append (.append (by decide) hr.unmarked))
  have hfolders : ∀ {mark tail : Text}, mark = '💤' :: tail → Unmarked tail →
      SpelledFolders mark t → ∃ m tail, t = m :: tail ∧ isMark m = true ∧ Unmarked tail := by
    rintro mark tail rfl htail ⟨list, hlist, rfl⟩
    refine ⟨'💤', _, rfl, rfl, htail.append (.append (by decide) (.append (by decide) ?_))⟩
    exact .append (s := ['[']) (by decide) (hlist.1.append (by decide))
  cases sh with
  | dated =>
      obtain ⟨m, r, hm, hr, rfl⟩ := h
      exact ⟨m, r, rfl, by simp [isMark, hm], hr.unmarked⟩
  | snoozeName => exact hname rfl (by decide) h
  | snoozeAllName => exact hname rfl (by decide) h
  | snoozeFolders => exact hfolders rfl (by decide) h
  | snoozeAllFolders => exact hfolders rfl (by decide) h
  | snooze => exact ⟨'💤', [], h, rfl, by decide⟩
  | snoozeAll => exact ⟨'💤', _, h, rfl, by decide⟩

theorem SpelledName.collapse {mark t : Text} (hmark : Firm mark) (hc : Text.collapse mark = mark)
    (h : SpelledName mark t) : SpelledName mark (Text.collapse t) := by
  obtain ⟨name, r, hname, hne, hr, rfl⟩ := h
  refine ⟨Text.collapse name, Text.collapse r, hname.collapse,
    fun h => hne (Text.collapse_eq_nil.mp h), hr.collapse, ?_⟩
  have hopen : Firm hiddenOpen := by decide
  have hclose : Firm hiddenClose := by decide
  rw [hmark.collapse_append_right hc, hopen.collapse_append_right (by decide),
    ← List.append_assoc name, hclose.collapse_append,
    show Text.collapse hiddenClose = hiddenClose by decide, List.append_assoc]

theorem SpelledFolders.collapse {mark t : Text} (hmark : Firm mark)
    (hc : Text.collapse mark = mark) (h : SpelledFolders mark t) :
    SpelledFolders mark (Text.collapse t) := by
  obtain ⟨list, hlist, rfl⟩ := h
  refine ⟨Text.collapse list, hlist.collapse, ?_⟩
  have hfolder : Firm folderMark := by decide
  have hopen : Firm hiddenOpen := by decide
  rw [hmark.collapse_append_right hc, hfolder.collapse_append_right (by decide),
    hopen.collapse_append_right (by decide), Text.collapse_cons_of_not_space (by decide),
    Text.collapse_append_cons (by decide), show Text.collapse hiddenClose = hiddenClose by decide]

/-- White space in a token can be narrowed. -/
theorem Shape.Spelled.collapse {sh : Shape} {t : Text} (h : sh.Spelled t) :
    sh.Spelled (Text.collapse t) := by
  cases sh with
  | dated =>
      obtain ⟨m, r, hm, hr, rfl⟩ := h
      refine ⟨m, Text.collapse r, hm, hr.collapse, Text.collapse_cons_of_not_space ?_ r⟩
      exact isSpace_of_isMark (by simp [isMark, hm])
  | snoozeName | snoozeAllName => exact SpelledName.collapse (by decide) (by decide) h
  | snoozeFolders | snoozeAllFolders => exact SpelledFolders.collapse (by decide) (by decide) h
  | snooze =>
      obtain rfl := h
      rfl
  | snoozeAll =>
      obtain rfl := h
      rfl

/-- How wide the white space in a token is has no say in its rank. -/
theorem Shape.rank_collapse {sh : Shape} {t : Text} (h : sh.Spelled t) :
    sh.rank (Text.collapse t) = sh.rank t := by
  obtain ⟨m, tail, rfl, hm, -⟩ := h.exists_mark
  rw [Text.collapse_cons_of_not_space (isSpace_of_isMark hm)]
  cases sh <;> rfl

end TaskLine.DateToken
