import TaskLine.Proofs.Spelling

/-!
# What the shapes accept

The scans accept more than is spelled: any name without a `<`, and any list of folders up to the
first bracket that the closing tag follows. `Shape.Accepts` is the grammar of what they do accept,
and a shape reads a token at the front of a text exactly if the text begins with one of its grammar,
in front of white space if nothing else ends the token (`Shape.after?_eq_some_iff`). So what is read
depends on the token and on the character behind it, not on the rest of the text
(`Shape.after?_congr`).

Behind its mark a token can hold another mark only in its hidden part
(`Shape.Accepts.hidden_of_mark`).
-/

namespace TaskLine.DateToken

open Text (Blank Firm)

/-! ## The grammar -/

/-- A snooze with this mark for a hidden name, and a date. -/
def AcceptsName (mark t : Text) : Prop :=
  ∃ name r, name ≠ [] ∧ '<' ∉ name ∧ SpacedDate r ∧
    t = mark ++ (hiddenOpen ++ (name ++ (hiddenClose ++ r)))

/-- A snooze with this mark for a hidden list, which is closed nowhere but at its end. -/
def AcceptsFolders (mark t : Text) : Prop :=
  ∃ list, Text.find? (']' :: hiddenClose) (list ++ ']' :: hiddenClose) = some list.length ∧
    t = mark ++ (folderMark ++ (hiddenOpen ++ '[' :: (list ++ ']' :: hiddenClose)))

/-- What a scan takes for a token of the shape. -/
def Shape.Accepts : Shape → Text → Prop
  | .dated, t => ∃ m r, (Marker.ofChar? m).isSome = true ∧ SpacedDate r ∧ t = m :: r
  | .snoozeName, t => AcceptsName snoozeMark t
  | .snoozeAllName, t => AcceptsName snoozeAllMark t
  | .snoozeFolders, t => AcceptsFolders snoozeMark t
  | .snoozeAllFolders, t => AcceptsFolders snoozeAllMark t
  | .snooze, t => t = snoozeMark
  | .snoozeAll, t => t = snoozeAllMark

/-- Whether a token of the shape ends only in front of white space. -/
def Shape.isBare : Shape → Bool
  | .snooze | .snoozeAll => true
  | _ => false

/-! ## The parts of a token -/

theorem after?_eq_some_iff {p s u : Text} : Text.after? p s = some u ↔ s = p ++ u :=
  ⟨eq_append_of_after?, fun h => h ▸ after?_append p u⟩

theorem exists_of_afterDigits? {n : Nat} {s u : Text} (h : afterDigits? n s = some u) :
    ∃ d, Digits n d ∧ s = d ++ u := by
  induction n generalizing s with
  | zero =>
      rw [afterDigits?] at h
      exact ⟨[], ⟨rfl, by simp⟩, Option.some.inj h⟩
  | succ n ih =>
      cases s with
      | nil => cases h
      | cons c s =>
          rw [afterDigits?] at h
          split at h
          · rename_i hc
            obtain ⟨d, ⟨hlen, hd⟩, rfl⟩ := ih h
            exact ⟨c :: d, ⟨by rw [List.length_cons, hlen], List.forall_mem_cons.mpr ⟨hc, hd⟩⟩, rfl⟩
          · cases h

theorem exists_of_afterDate? {s u : Text} (h : afterDate? s = some u) :
    ∃ d, IsDate d ∧ s = d ++ u := by
  simp only [afterDate?, Option.bind_eq_some_iff] at h
  obtain ⟨s₁, hy, s₂, hdash, s₃, hm, s₄, hdash', hd⟩ := h
  obtain ⟨y, hyear, rfl⟩ := exists_of_afterDigits? hy
  obtain rfl := eq_append_of_after? hdash
  obtain ⟨m, hmonth, rfl⟩ := exists_of_afterDigits? hm
  obtain rfl := eq_append_of_after? hdash'
  obtain ⟨d, hday, rfl⟩ := exists_of_afterDigits? hd
  exact ⟨y ++ '-' :: (m ++ '-' :: d), ⟨y, m, d, hyear, hmonth, hday, rfl⟩, by simp⟩

theorem afterSpacedDate?_eq_some_iff {s u : Text} :
    afterSpacedDate? s = some u ↔ ∃ r, SpacedDate r ∧ s = r ++ u := by
  refine ⟨fun h => ?_, fun ⟨r, hr, hs⟩ => hs ▸ hr.afterSpacedDate? u⟩
  cases s with
  | nil => cases h
  | cons c s =>
      rw [afterSpacedDate?] at h
      split at h
      · rename_i hc
        obtain ⟨g, hg, hs⟩ := Text.exists_blank_trimLeft s
        obtain ⟨d, hd, hrest⟩ := exists_of_afterDate? h
        refine ⟨c :: g ++ d, ⟨c :: g, d, List.forall_mem_cons.mpr ⟨hc, hg⟩, List.cons_ne_nil _ _,
          hd, rfl⟩, ?_⟩
        rw [hs, hrest]
        simp
      · cases h

theorem afterHiddenName?_eq_some_iff {s u : Text} :
    afterHiddenName? s = some u ↔
      ∃ name, name ≠ [] ∧ '<' ∉ name ∧ s = hiddenOpen ++ (name ++ (hiddenClose ++ u)) := by
  constructor
  · intro h
    simp only [afterHiddenName?, Option.bind_eq_some_iff] at h
    obtain ⟨s₁, hopen, h⟩ := h
    obtain rfl := eq_append_of_after? hopen
    split at h
    · cases h
    · rename_i hne
      refine ⟨s₁.takeWhile (· ≠ '<'), fun hnil => hne (List.isEmpty_iff.mpr hnil), fun hlt => ?_,
        ?_⟩
      · simpa using List.mem_takeWhile_imp hlt
      · rw [← eq_append_of_after? h, List.takeWhile_append_dropWhile]
  · rintro ⟨name, hne, hlt, rfl⟩
    exact afterHiddenName?_append hlt hne u

theorem exists_of_find? {p s : Text} {i : Nat} (h : Text.find? p s = some i) :
    ∃ x u, x.length = i ∧ s = x ++ p ++ u := by
  induction s generalizing i with
  | nil =>
      rw [Text.find?] at h
      split at h
      · rename_i hp
        obtain rfl := Option.some.inj h
        exact ⟨[], [], rfl, by simpa using hp⟩
      · cases h
  | cons c s ih =>
      rw [Text.find?] at h
      split at h
      · rename_i hsome
        obtain ⟨u, hu⟩ := Option.isSome_iff_exists.mp hsome
        obtain rfl := Option.some.inj h
        exact ⟨[], u, rfl, eq_append_of_after? hu⟩
      · obtain ⟨j, hj, rfl⟩ := Option.map_eq_some_iff.mp h
        obtain ⟨x, u, rfl, rfl⟩ := ih hj
        exact ⟨c :: x, u, rfl, rfl⟩

theorem isSome_after?_append {p s : Text} (h : p.length ≤ s.length) (u : Text) :
    (Text.after? p (s ++ u)).isSome = (Text.after? p s).isSome := by
  induction p generalizing s with
  | nil => cases s <;> cases u <;> rfl
  | cons a p ih =>
      cases s with
      | nil => simp at h
      | cons c s =>
          rw [List.cons_append, Text.after?, Text.after?]
          split
          · exact ih (Nat.le_of_succ_le_succ h)
          · rfl

/-- What ends before a text does is found there whatever stands behind. -/
theorem find?_append_iff {p s : Text} {i : Nat} (h : i + p.length ≤ s.length) (u : Text) :
    Text.find? p (s ++ u) = some i ↔ Text.find? p s = some i := by
  induction s generalizing i with
  | nil =>
      obtain ⟨rfl, hp⟩ := Nat.add_eq_zero_iff.mp (Nat.le_zero.mp h)
      obtain rfl := List.length_eq_zero_iff.mp hp
      cases u <;> exact iff_of_true rfl rfl
  | cons c s ih =>
      rw [List.cons_append, Text.find?, Text.find?, ← List.cons_append,
        isSome_after?_append (by omega)]
      split
      · rfl
      · cases i with
        | zero => simp
        | succ i =>
            rw [List.length_cons] at h
            simpa using ih (i := i) (by omega)

theorem afterHiddenList?_eq_some_iff {s u : Text} :
    afterHiddenList? s = some u ↔
      ∃ list, Text.find? (']' :: hiddenClose) (list ++ ']' :: hiddenClose) = some list.length ∧
        s = hiddenOpen ++ '[' :: (list ++ ']' :: (hiddenClose ++ u)) := by
  have hclosed : ∀ list v : Text,
      Text.find? (']' :: hiddenClose) (list ++ ']' :: hiddenClose ++ v) = some list.length ↔
        Text.find? (']' :: hiddenClose) (list ++ ']' :: hiddenClose) = some list.length :=
    fun list v => find?_append_iff (by rw [List.length_append]) v
  simp only [afterHiddenList?, Option.bind_eq_some_iff, Option.map_eq_some_iff,
    after?_eq_some_iff]
  constructor
  · rintro ⟨_, rfl, _, rfl, i, hi, rfl⟩
    obtain ⟨list, v, rfl, rfl⟩ := exists_of_find? hi
    have hdrop :
        (list ++ ']' :: hiddenClose ++ v).drop (list.length + hiddenClose.length + 1) = v :=
      List.drop_left' (by simp [Nat.add_assoc])
    exact ⟨list, (hclosed list v).mp hi, by rw [hdrop]; simp⟩
  · rintro ⟨list, hlist, rfl⟩
    refine ⟨_, rfl, list ++ ']' :: hiddenClose ++ u, by simp, list.length,
      (hclosed list u).mpr hlist, ?_⟩
    exact List.drop_left' (by simp [Nat.add_assoc])

theorem unglued?_eq_some_iff {s u : Text} : unglued? s = some u ↔ s = u ∧ Unglued u := by
  refine ⟨fun h => ?_, fun ⟨hs, hu⟩ => hs ▸ hu.unglued?⟩
  cases s with
  | nil => exact ⟨Option.some.inj h, Option.some.inj h ▸ unglued_nil⟩
  | cons c s =>
      simp only [unglued?, List.head?_cons] at h
      split at h
      · rename_i hc
        exact ⟨Option.some.inj h, Option.some.inj h ▸ unglued_cons hc s⟩
      · cases h

/-! ## A shape reads its grammar -/

theorem afterName?_eq_some_iff {mark s u : Text} :
    ((Text.after? mark s).bind fun s => (afterHiddenName? s).bind afterSpacedDate?) = some u ↔
      ∃ t, s = t ++ u ∧ AcceptsName mark t := by
  simp only [Option.bind_eq_some_iff, after?_eq_some_iff, afterHiddenName?_eq_some_iff,
    afterSpacedDate?_eq_some_iff]
  constructor
  · rintro ⟨_, rfl, _, ⟨name, hne, hlt, rfl⟩, r, hr, rfl⟩
    exact ⟨_, by simp only [List.append_assoc], name, r, hne, hlt, hr, rfl⟩
  · rintro ⟨t, rfl, name, r, hne, hlt, hr, rfl⟩
    exact ⟨_, by simp only [List.append_assoc], r ++ u, ⟨name, hne, hlt, rfl⟩, r, hr, rfl⟩

theorem afterFolders?_eq_some_iff {mark s u : Text} :
    ((Text.after? (mark ++ folderMark) s).bind afterHiddenList?) = some u ↔
      ∃ t, s = t ++ u ∧ AcceptsFolders mark t := by
  simp only [Option.bind_eq_some_iff, after?_eq_some_iff, afterHiddenList?_eq_some_iff]
  constructor
  · rintro ⟨_, rfl, list, hlist, rfl⟩
    exact ⟨_, by simp only [List.append_assoc, List.cons_append], list, hlist, rfl⟩
  · rintro ⟨t, rfl, list, hlist, rfl⟩
    exact ⟨_, by simp only [List.append_assoc, List.cons_append], list, hlist, rfl⟩

theorem afterAlone?_eq_some_iff {mark s u : Text} :
    ((Text.after? mark s).bind unglued?) = some u ↔ s = mark ++ u ∧ Unglued u := by
  simp only [Option.bind_eq_some_iff, after?_eq_some_iff, unglued?_eq_some_iff]
  constructor
  · rintro ⟨_, rfl, rfl, hu⟩
    exact ⟨rfl, hu⟩
  · rintro ⟨rfl, hu⟩
    exact ⟨u, rfl, rfl, hu⟩

/-- A shape reads a token exactly where one of its grammar stands. -/
theorem Shape.after?_eq_some_iff {sh : Shape} {s u : Text} :
    sh.after? s = some u ↔
      ∃ t, s = t ++ u ∧ sh.Accepts t ∧ (sh.isBare = true → Unglued u) := by
  cases sh with
  | dated =>
      constructor
      · intro h
        cases s with
        | nil => cases h
        | cons m s =>
            rw [Shape.after?] at h
            split at h
            · rename_i hm
              obtain ⟨r, hr, rfl⟩ := afterSpacedDate?_eq_some_iff.mp h
              exact ⟨m :: r, rfl, ⟨m, r, hm, hr, rfl⟩, fun hbare => by cases hbare⟩
            · cases h
      · rintro ⟨_, rfl, ⟨m, r, hm, hr, rfl⟩, -⟩
        rw [List.cons_append, Shape.after?, if_pos hm, hr.afterSpacedDate?]
  | snoozeName | snoozeAllName =>
      simp [Shape.after?, afterName?_eq_some_iff, Accepts, isBare]
  | snoozeFolders | snoozeAllFolders =>
      simp [Shape.after?, afterFolders?_eq_some_iff, Accepts, isBare]
  | snooze | snoozeAll => simp [Shape.after?, afterAlone?_eq_some_iff, Accepts, isBare]

theorem SpelledName.accepts {mark t : Text} (h : SpelledName mark t) : AcceptsName mark t := by
  obtain ⟨name, r, hname, hne, hr, rfl⟩ := h
  exact ⟨name, r, hne, hname.2, hr, rfl⟩

theorem SpelledFolders.accepts {mark t : Text} (h : SpelledFolders mark t) :
    AcceptsFolders mark t := by
  obtain ⟨list, hlist, rfl⟩ := h
  have hclose := find?_close hlist.2 []
  rw [List.append_nil] at hclose
  exact ⟨list, hclose, rfl⟩

theorem Shape.Spelled.accepts {sh : Shape} {t : Text} (h : sh.Spelled t) : sh.Accepts t := by
  cases sh with
  | dated | snooze | snoozeAll => exact h
  | snoozeName | snoozeAllName => exact SpelledName.accepts h
  | snoozeFolders | snoozeAllFolders => exact SpelledFolders.accepts h

/-- In front of white space a spelled token is read to its end. -/
theorem Shape.Spelled.after? {sh : Shape} {t u : Text} (h : sh.Spelled t) (hu : Unglued u) :
    sh.after? (t ++ u) = some u :=
  Shape.after?_eq_some_iff.mpr ⟨t, rfl, h.accepts, fun _ => hu⟩

/-- No other shape reads it. -/
theorem Shape.Spelled.after?_of_ne {sh sh' : Shape} {t u : Text} (h : sh.Spelled t)
    (hu : Unglued u) (hne : sh ≠ sh') : sh'.after? (t ++ u) = none := by
  by_contra hsome
  rw [← ne_eq, ← Option.isSome_iff_ne_none] at hsome
  have hread : (sh.after? (t ++ u)).isSome = true := by
    rw [h.after? hu]
    rfl
  have hlead := Shape.lead?_of_after? hread
  rw [Shape.lead?_of_after? hsome] at hlead
  exact hne (Option.some.inj hlead).symm

/-- What is read is told by the token and the character behind it. -/
theorem Shape.after?_congr {sh : Shape} {t u v : Text} (h : sh.after? (t ++ u) = some u)
    (hhead : u.head? = v.head?) : sh.after? (t ++ v) = some v := by
  obtain ⟨t', ht, hacc, hbare⟩ := Shape.after?_eq_some_iff.mp h
  obtain rfl := List.append_cancel_right ht
  refine Shape.after?_eq_some_iff.mpr ⟨t, rfl, hacc, fun hb => ?_⟩
  rw [Unglued, ← hhead]
  exact hbare hb

/-! ## Marks in a token -/

/-- What stands in front of the hidden part of a token. -/
def Shape.opening : Shape → Text
  | .dated | .snooze | .snoozeAll => []
  | .snoozeName => snoozeMark ++ hiddenOpen
  | .snoozeAllName => snoozeAllMark ++ hiddenOpen
  | .snoozeFolders => snoozeMark ++ (folderMark ++ (hiddenOpen ++ ['[']))
  | .snoozeAllFolders => snoozeAllMark ++ (folderMark ++ (hiddenOpen ++ ['[']))

/-- The hidden part of a token: the name or the list of folders. -/
def Shape.hidden (sh : Shape) (t : Text) : Text :=
  match sh with
  | .dated | .snooze | .snoozeAll => []
  | .snoozeName | .snoozeAllName => (t.drop sh.opening.length).takeWhile (· ≠ '<')
  | .snoozeFolders | .snoozeAllFolders =>
    Text.slice sh.opening.length (t.length - (']' :: hiddenClose).length) t

theorem Shape.hidden_eq_nil {sh : Shape} (h : sh.opening = []) (t : Text) : sh.hidden t = [] := by
  cases sh with
  | dated | snooze | snoozeAll => rfl
  | _ => cases h

theorem Shape.Accepts.exists_mark {sh : Shape} {t : Text} (h : sh.Accepts t) :
    ∃ m tail, t = m :: tail ∧ isMark m = true := by
  cases sh with
  | dated =>
      obtain ⟨m, r, hm, -, rfl⟩ := h
      exact ⟨m, r, rfl, by simp [isMark, hm]⟩
  | snoozeName | snoozeAllName =>
      obtain ⟨name, r, -, -, -, rfl⟩ := h
      exact ⟨'💤', _, rfl, rfl⟩
  | snoozeFolders | snoozeAllFolders =>
      obtain ⟨list, -, rfl⟩ := h
      exact ⟨'💤', _, rfl, rfl⟩
  | snooze | snoozeAll => exact ⟨'💤', _, h, rfl⟩

theorem AcceptsName.exists_hidden {mark t : Text} (h : AcceptsName mark t) :
    ∃ y, t = mark ++ hiddenOpen ++
        ((t.drop (mark ++ hiddenOpen).length).takeWhile (· ≠ '<') ++ y) ∧ Unmarked y := by
  obtain ⟨name, r, -, hlt, hr, rfl⟩ := h
  have hcut : (name ++ (hiddenClose ++ r)).takeWhile (· ≠ '<') = name :=
    (takeWhile_dropWhile_hidden hlt ("/span>".toList ++ r)).1
  refine ⟨hiddenClose ++ r, ?_, .append (by decide) hr.unmarked⟩
  rw [← List.append_assoc mark, List.drop_left, hcut]

theorem AcceptsFolders.exists_hidden {mark t : Text} (h : AcceptsFolders mark t) :
    ∃ y, t = mark ++ (folderMark ++ (hiddenOpen ++ ['['])) ++
        (Text.slice (mark ++ (folderMark ++ (hiddenOpen ++ ['[']))).length
          (t.length - (']' :: hiddenClose).length) t ++ y) ∧ Unmarked y := by
  obtain ⟨list, -, rfl⟩ := h
  refine ⟨']' :: hiddenClose, ?_, by decide⟩
  have hassoc : mark ++ (folderMark ++ (hiddenOpen ++ '[' :: (list ++ ']' :: hiddenClose))) =
      mark ++ (folderMark ++ (hiddenOpen ++ ['['])) ++ list ++ ']' :: hiddenClose := by
    simp
  have hlen : ∀ x y : Text, (x ++ y).length - y.length = x.length := fun x y => by simp
  rw [hassoc, hlen, Text.slice, List.take_left, List.drop_left, List.append_assoc]

/-- A token is made of a mark, what stands behind it, the hidden part and the rest, and marks
stand in the hidden part only. -/
theorem Shape.Accepts.exists_hidden {sh : Shape} {t : Text} (h : sh.Accepts t) :
    ∃ m x y, t = m :: x ++ (sh.hidden t ++ y) ∧ Unmarked x ∧ Unmarked y ∧
      (sh.hidden t ≠ [] → (m :: x).length = sh.opening.length) := by
  cases sh with
  | dated =>
      obtain ⟨m, r, -, hr, rfl⟩ := h
      exact ⟨m, r, [], by simp [hidden], hr.unmarked, by simp [Unmarked], fun hne => absurd rfl hne⟩
  | snooze =>
      obtain rfl := h
      exact ⟨'💤', [], [], rfl, by decide, by decide, fun hne => absurd rfl hne⟩
  | snoozeAll =>
      obtain rfl := h
      exact ⟨'💤', ['⬇', '\ufe0f'], [], rfl, by decide, by decide, fun hne => absurd rfl hne⟩
  | snoozeName | snoozeAllName =>
      obtain ⟨y, ht, hy⟩ := AcceptsName.exists_hidden h
      exact ⟨'💤', _, y, ht, by decide, hy, fun _ => rfl⟩
  | snoozeFolders | snoozeAllFolders =>
      obtain ⟨y, ht, hy⟩ := AcceptsFolders.exists_hidden h
      exact ⟨'💤', _, y, ht, by decide, hy, fun _ => rfl⟩

theorem Shape.Accepts.length_hidden_le {sh : Shape} {t : Text} (h : sh.Accepts t)
    (hne : sh.hidden t ≠ []) : sh.opening.length + (sh.hidden t).length ≤ t.length := by
  obtain ⟨m, x, y, ht, -, -, hlen⟩ := h.exists_hidden
  have htotal := congrArg List.length ht
  rw [List.length_append, List.length_append, hlen hne] at htotal
  omega

/-- Behind its first character a token has marks only in its hidden part. -/
theorem Shape.Accepts.hidden_of_mark {sh : Shape} {t a b : Text} {m : Char} (h : sh.Accepts t)
    (ht : t = a ++ m :: b) (hm : isMark m = true) (ha : a ≠ []) :
    sh.opening.length ≤ a.length ∧ a.length < sh.opening.length + (sh.hidden t).length := by
  obtain ⟨m₀, x, y, hsplit, hx, hy, hlen⟩ := h.exists_hidden
  have hfront : ∀ {c d : Text}, a = m₀ :: x ++ c → sh.hidden t ++ y = c ++ m :: d →
      sh.opening.length ≤ a.length ∧ a.length < sh.opening.length + (sh.hidden t).length := by
    intro c d hac hcd
    rcases List.append_eq_append_iff.mp hcd with ⟨e, -, hye⟩ | ⟨e, hhide, hme⟩
    · have := hy m (hye ▸ by simp)
      rw [hm] at this
      cases this
    · cases e with
      | nil =>
          have := hy m (by rw [List.nil_append] at hme; rw [← hme]; exact List.mem_cons_self)
          rw [hm] at this
          cases this
      | cons m' e =>
          have hlen := hlen (by rw [hhide]; simp)
          rw [← hlen, hac, hhide]
          simp only [List.length_append, List.length_cons]
          omega
  have hsplit := ht.symm.trans hsplit
  rcases List.append_eq_append_iff.mp hsplit with ⟨c, hxc, hmc⟩ | ⟨c, hac, hcd⟩
  · cases c with
    | nil => exact hfront (c := []) (d := b) (by rw [hxc]; simp) hmc.symm
    | cons m' c =>
        -- the mark would stand right behind the first character
        obtain ⟨a₀, a, rfl⟩ := List.exists_cons_of_ne_nil ha
        obtain ⟨-, hxc⟩ := List.cons.inj hxc
        have := hx m (by rw [hxc, (List.cons.inj hmc).1]; simp)
        rw [hm] at this
        cases this
  · exact hfront hac hcd

end TaskLine.DateToken
