import TaskLine.Proofs.Landmarks
import TaskLine.Proofs.Tidying

/-!
# Wrappers that survive

Formatting writes most wrappers behind the text, so what the scanner has made
of the text decides whether they are found again. They are if the text leaves
no tag open and no wrapper begins in the text or in the tokens
(`Frame.wrappersOf_formatLine_perm`): whatever else changes hands when the line
is read again, such as a bracket at the head of the text or a reference at its
end, has no part in a wrapper (`Task.Sound.wrappersOf_eq`).

A landmark behind the text tells that less is not enough (`landmarkLine`): next
to a text and tokens that do not meet the condition, it is lost
(`passes_of_survives`).
-/

namespace TaskLine

open Text (Blank Firm Tidy row join collapse trim)
open Markup (Template Closed Passes)
open Line (EndsInReference Leads)

/-! ## Reading the wrappers of a line that was written -/

namespace Task

variable {t : Task}

theorem row_words_of_front_eq_nil (h : t.front = []) :
    row t.words = row (present (some t.text)).toList ++ row t.back := by
  rw [words, h, List.nil_append, Text.row_append]

theorem words_of_back_eq_nil (h : t.back = []) (htext : t.text ≠ []) :
    t.words = t.front ++ [t.text] := by
  rw [words, h, present_of_ne_nil htext, Option.toList_some, List.append_nil]

theorem inner_of_back_eq_nil (h : t.back = []) (s : Text) (b : Option Text) :
    { t with text := s, blockId := b }.inner = t.front ++ (present (some s)).toList := by
  simp only [back, List.append_eq_nil_iff] at h
  have htags : { t with text := s, blockId := b }.tags = [] := h.1.1
  rw [inner, htags, h.1.2, List.append_nil, List.append_nil]
  rfl

/-- A text at the end of a row, without the white space behind it. -/
theorem exists_row_trimRight (y : Text) :
    ∃ d, Blank d ∧ ' ' :: y = row (present (some (Text.trimRight y))).toList ++ d := by
  obtain ⟨d, hd, hy⟩ := Text.exists_trimRight_blank y
  by_cases hnil : Text.trimRight y = []
  · rw [hnil] at hy ⊢
    exact ⟨' ' :: d, List.forall_mem_cons.mpr ⟨by decide, hd⟩, congrArg _ hy⟩
  · refine ⟨d, hd, ?_⟩
    rw [present_of_ne_nil hnil, Option.toList_some, Text.row_cons, Text.row_nil, List.append_nil,
      List.cons_append, ← hy]

namespace Sound

theorem with_text (h : t.Sound) {s : Text} {b : Option Text} (hs : s = [] ∨ Firm s)
    (hb : ∀ x, b = some x → IsReference x) : { t with text := s, blockId := b }.Sound where
  slots := h.slots
  templates := h.templates
  delegate := h.delegate
  text := hs
  tokens := h.tokens
  blockId := hb

/-- A row behind white space, without the white space in front. -/
theorem exists_trimLeft_row {ws : List Text} (hws : ∀ w ∈ ws, Firm w) {g : Text} (hg : Blank g) :
    ∃ g', Blank g' ∧ Text.trimLeft (row ws ++ g) = join [' '] ws ++ g' := by
  cases ws with
  | nil => exact ⟨[], Blank.nil, Text.trimLeft_blank hg⟩
  | cons w ws =>
      refine ⟨g, hg, ?_⟩
      obtain ⟨c, cs, rfl, hc⟩ := (hws w List.mem_cons_self).cons_eq
      have hspace : Blank [' '] := Blank.singleton (by decide)
      rw [Text.row_cons, ← List.singleton_append, List.append_assoc, List.append_assoc,
        Text.trimLeft_append hspace, List.cons_append, Text.trimLeft_cons hc, Text.join_cons,
        List.append_assoc, List.cons_append]

/-- White space at the head of a text in front of other words. -/
theorem trimLeft_text_row (s x : Text) :
    Text.trimLeft (s ++ x) =
      Text.trimLeft (row (present (some (Text.trimLeft s))).toList ++ x) := by
  obtain ⟨gap, hgap, hsplit⟩ := Text.exists_blank_trimLeft s
  conv_lhs => rw [hsplit, List.append_assoc, Text.trimLeft_append hgap]
  by_cases hnil : Text.trimLeft s = []
  · rw [hnil]
    rfl
  · have hspace : Blank [' '] := Blank.singleton (by decide)
    rw [present_of_ne_nil hnil, Option.toList_some, Text.row_cons, Text.row_nil, List.append_nil,
      ← List.singleton_append, List.append_assoc, Text.trimLeft_append hspace]

/-- A bracket at the head of the words, and what stands behind it. -/
theorem exists_bracket_words (h : t.Sound) (hfront : t.front = []) {s : Text}
    (hs : t.text = ']' :: s) (hfirm : Text.trimLeft s = [] ∨ Firm (Text.trimLeft s)) {g : Text}
    (hg : Blank g) :
    ∃ gap g', Blank gap ∧ Blank g' ∧
      Text.trimLeft (join [' '] { t with text := Text.trimLeft s }.words ++ g') =
        join [' '] { t with text := Text.trimLeft s }.words ++ g' ∧
      join [' '] t.words ++ g =
        ']' :: (gap ++ (join [' '] { t with text := Text.trimLeft s }.words ++ g')) := by
  have hsound := h.with_text hfirm h.blockId
  have hrow := row_words_of_front_eq_nil (t := { t with text := Text.trimLeft s }) hfront
  obtain ⟨gap, hgap, hsplit⟩ := Text.exists_blank_trimLeft (s ++ (row t.back ++ g))
  obtain ⟨g', hg', hrest⟩ := exists_trimLeft_row (fun w hw => hsound.firm_words hw) hg
  have htrim : Text.trimLeft (s ++ (row t.back ++ g)) =
      join [' '] { t with text := Text.trimLeft s }.words ++ g' := by
    rw [← hrest, hrow, trimLeft_text_row, List.append_assoc]
    rfl
  refine ⟨gap, g', hgap, hg', by rw [← htrim, Text.trimLeft_trimLeft], ?_⟩
  have hne : t.text ≠ [] := hs ▸ List.cons_ne_nil _ _
  rw [← htrim, ← hsplit, words, hfront, present_of_ne_nil hne, List.nil_append, Option.toList_some,
    List.singleton_append, Text.join_cons, hs, List.cons_append, List.cons_append,
    List.append_assoc]

/-- The head of a line is read with the bracket of a text that closes its box. -/
theorem exists_splitHead?_eq (h : t.Sound) {y : Text} (hlead : Leads t.head y)
    (hpasses : Passes t.text) {g : Text} (hg : Blank g) (hempty : t.words = [] → g = []) :
    ∃ head text g', Blank g' ∧ Passes text ∧ { t with text }.Sound ∧
      Line.splitHead? (t.head ++ (join [' '] t.words ++ g)) =
        some (head, join [' '] { t with text }.words ++ g') := by
  by_cases hwords : Leads t.head (join [' '] t.words)
  · exact ⟨t.head, t.text, g, hg, hpasses, h, h.splitHead?_eq hwords hempty⟩
  have hconcat := hlead.forall_or_concat.resolve_left fun hall => hwords (hall _)
  -- the words begin with a bracket, so the text is in front
  obtain ⟨hfront, hbracket⟩ := h.bracket_text <| by
    by_contra hne
    exact hwords (hlead.congr fun hh => absurd hh hne)
  obtain ⟨s, hs⟩ := List.head?_eq_some_iff.mp hbracket
  have hfirm : Text.trimLeft s = [] ∨ Firm (Text.trimLeft s) := by
    refine Firm.trimLeft_tail (c := ']') ?_
    rw [← hs]
    exact h.text.resolve_left (hs ▸ List.cons_ne_nil _ _)
  obtain ⟨gap, g', hgap, hg', htrim, hjoin⟩ := h.exists_bracket_words hfront hs hfirm hg
  refine ⟨t.head ++ [']'] ++ gap, Text.trimLeft s, g', hg', ?_, h.with_text hfirm h.blockId,
    Line.splitHead?_eq_some_iff.mpr ⟨?_, (hconcat _).append hgap, htrim⟩⟩
  · obtain ⟨e, he, hsplit⟩ := Text.exists_blank_trimLeft s
    rw [hs] at hpasses
    exact .of_blank_append he (hsplit ▸ hpasses.of_cons (by decide))
  · rw [hjoin]
    simp

/-- A block reference that the text ends in is taken off it. -/
theorem exists_splitBlockId_eq (h : t.Sound) (hpasses : Passes t.text) {g : Text} (hg : Blank g) :
    ∃ text blockId g', Blank g' ∧ Passes text ∧ { t with text, blockId }.Sound ∧
      Line.splitBlockId (join [' '] t.words ++ g) =
        (join [' '] { t with text, blockId }.inner ++ g', blockId) := by
  by_cases hends : t.back = [] ∧ EndsInReference t.text
  · obtain ⟨hback, y, name, e, hne, hname, he, htext⟩ := hends
    have hne' : t.text ≠ [] := by
      rw [htext]
      simp
    have hfirm : Text.trimRight y = [] ∨ Firm (Text.trimRight y) := by
      refine Firm.trimRight_prefix (t := '^' :: (name ++ e)) ?_
      rw [← htext]
      exact h.text.resolve_left hne'
    have hsound := h.with_text (b := some ('^' :: name)) hfirm
      fun b hb => ⟨name, hne, hname, (Option.some.inj hb).symm⟩
    refine ⟨Text.trimRight y, some ('^' :: name), [' '], Blank.singleton (by decide), ?_, hsound,
      ?_⟩
    · obtain ⟨d, hd, hy⟩ := Text.exists_trimRight_blank y
      rw [htext] at hpasses
      have hy' : Passes y := hpasses.of_append fun hmem => by
        simp only [List.mem_cons, List.mem_append] at hmem
        rcases hmem with hmem | hmem | hmem
        · cases hmem
        · cases hname _ hmem
        · cases he _ hmem
      rw [hy] at hy'
      exact hy'.of_append fun hmem => by cases hd _ hmem
    have hinner := inner_of_back_eq_nil hback (Text.trimRight y) (some ('^' :: name))
    obtain ⟨d, hd, hrow⟩ := exists_row_trimRight y
    rw [hinner]
    refine Line.splitBlockId_of_row (fun w hw => hsound.firm_inner (hinner ▸ hw)) hne hname hd
      (he.append hg) ?_
    have hwords := words_of_back_eq_nil hback hne'
    have hcons : ' ' :: join [' '] t.words = row t.words :=
      Text.space_join (by rw [hwords]; simp)
    rw [← List.cons_append, hcons, hwords, Text.row_append, Text.row_append,
      List.append_assoc (row t.front) _ d, ← hrow, htext, Text.row_cons, Text.row_nil]
    simp
  · obtain ⟨g', hg', -, -, -, hsplit⟩ := h.splitBlockId_eq (fun hb href => hends ⟨hb, href⟩) hg
    exact ⟨t.text, t.blockId, g', hg', hpasses, h, hsplit⟩

theorem wrappers_join_inner (h : t.Sound) (hclear : t.Clear) {g : Text} (hg : Blank g) :
    Markup.wrappers (join [' '] t.inner ++ g) = t.slots.wrappers := by
  obtain ⟨g', hchars, -, hjoin⟩ := space_join_append t.inner g
  have hg' : Blank g' := fun c hc => (hchars c hc).elim (fun h => h ▸ by decide) (hg c)
  obtain ⟨_, _, -, -, -, -, hwrappers, -⟩ := h.scan_inner hclear hg'
  rwa [← hjoin, Markup.wrappers_cons_of_ne (by decide)] at hwrappers

/-- The wrappers of the task are found on its line. -/
theorem wrappersOf_eq (h : t.Sound) {y : Text} (hlead : Leads t.head y) (hpasses : Passes t.text)
    (hdates : Markup.wrappers (join [' '] t.dates) = []) {g : Text} (hg : Blank g)
    (hempty : t.words = [] → g = []) :
    Task.wrappersOf (t.head ++ (join [' '] t.words ++ g)) = t.slots.wrappers := by
  obtain ⟨head, text₁, g₁, hg₁, hpasses₁, hsound₁, hhead⟩ :=
    h.exists_splitHead?_eq hlead hpasses hg hempty
  obtain ⟨text₂, blockId, g₂, hg₂, hpasses₂, hsound₂, hblock⟩ :=
    hsound₁.exists_splitBlockId_eq hpasses₁ hg₁
  have hscan := hsound₂.wrappers_join_inner (.inl ⟨hpasses₂, hdates⟩) hg₂
  have hread : Frame.read? (t.head ++ (join [' '] t.words ++ g)) =
      some ⟨head, _, _, blockId⟩ := Frame.read?_eq_some_iff.mpr ⟨hhead, hblock⟩
  rw [Frame.wrappersOf_eq hread, hscan, hsound₂.ofWrappers_eq]

end Sound

end Task

theorem Task.wrappers_tidied_perm {t : Task}
    (hdelegate : t.slots.delegate ≠ none → t.slots.assignee ≠ none) :
    t.tidied.slots.wrappers.Perm t.slots.wrappers := by
  have hkept : (if t.slots.assignee = none then none else t.slots.delegate) = t.slots.delegate := by
    split
    · rename_i ha
      by_contra hne
      exact hdelegate (Ne.symm hne) ha
    · rfl
  simp only [Slots.wrappers, Slots.templates, tidied, hkept, Slots.sorted]
  refine List.Perm.map _ (List.Perm.append_right _ (List.Perm.append_right _
    (List.Perm.append_right _ (List.Perm.append_left _ ?_))))
  exact sortBy_perm _ _

/-- The wrappers of a line survive if its text leaves no tag open and no wrapper begins in the
text or in the tokens. -/
theorem Frame.wrappersOf_formatLine_perm {line : Text} {frame : Frame}
    (hread : Frame.read? line = some frame) (hwhole : frame.task.slots.Whole)
    (hdelegate : frame.task.slots.delegate ≠ none → frame.task.slots.assignee ≠ none)
    (hpasses : Passes frame.task.tidied.text)
    (hdates : Markup.wrappers (join [' '] frame.task.tidied.dates) = []) :
    (Task.wrappersOf (formatLine {} line)).Perm (Task.wrappersOf line) := by
  have hsound := sound_tidied hread hwhole
  have hline : Task.wrappersOf line = frame.task.slots.wrappers := wrappersOf_eq hread
  rw [hline]
  refine List.Perm.trans ?_ (Task.wrappers_tidied_perm hdelegate)
  obtain ⟨y, hlead⟩ := exists_leads hread
  by_cases hwords : frame.task.tidied.words = []
  · -- a head alone has no wrappers, and none were to be written
    have hnil : frame.task.tidied.slots.wrappers = [] := by
      rw [← hsound.wrappers_eq]
      simp only [Task.words, Task.back, List.append_eq_nil_iff] at hwords
      rw [hwords.1.1, hwords.2.1.1]
      rfl
    have hlead' : Leads frame.head [] := hlead.congr fun hh => by cases hh
    obtain ⟨hhead, -⟩ := leads_formatLine hread hlead' hwords
    rw [hnil, wrappersOf_eq (read?_of_leads hhead)]
    exact List.Perm.refl _
  · obtain ⟨g, hg, -, hformat, -⟩ := exists_formatLine_eq hread hwhole hwords
    rw [hformat, hsound.wrappersOf_eq (leads_tidied hlead) hpasses hdates hg
      fun hnil => absurd hnil hwords]

/-- On a line that ends in a block reference, the wrappers are those in front of the reference. -/
theorem Frame.wrappersOf_formatLine_of_blockId {line : Text} {frame : Frame}
    (hread : Frame.read? line = some frame) (hwhole : frame.task.slots.Whole)
    (hlead : ∀ y, Leads frame.head y) (hblock : frame.blockId ≠ none) :
    Task.wrappersOf (formatLine {} line) =
      (Slots.ofWrappers
        (Markup.wrappers (join [' '] frame.task.tidied.inner ++ [' ']))).wrappers := by
  have hsound := sound_tidied hread hwhole
  have hblock' : frame.task.tidied.blockId ≠ none := hblock
  have hback : frame.task.tidied.back ≠ [] := fun hnil =>
    hblock' (hsound.back_eq_nil_iff.mp hnil).2.2
  have hwords : frame.task.tidied.words ≠ [] := by
    intro hnil
    rw [Task.words, List.append_eq_nil_iff] at hnil
    exact hback hnil.2
  obtain ⟨g, hg, -, hline, -⟩ := exists_formatLine_eq hread hwhole hwords
  obtain ⟨g', -, -, -, hg', hsplit⟩ := hsound.splitBlockId_eq (fun h => absurd h hback) hg
  rw [hg' hblock'] at hsplit
  have hhead := hsound.splitHead?_eq (g := g) (leads_tidied (hlead _)) fun h => absurd h hwords
  rw [← hline] at hhead
  have hread' : Frame.read? (formatLine {} line) = some ⟨frame.task.tidied.head, _,
      join [' '] frame.task.tidied.inner ++ [' '], frame.task.tidied.blockId⟩ :=
    Frame.read?_eq_some_iff.mpr ⟨hhead, hsplit⟩
  rw [wrappersOf_eq hread']

/-! ## A landmark in front of a text -/

theorem Text.trim_blank_blank {g g' : Text} (hg : Blank g) (hg' : Blank g') (s : Text) :
    trim (g ++ s ++ g') = trim s := by
  obtain ⟨a, b, ha, hb, hs⟩ := Text.exists_blank_trim_blank s
  have hsplit : g ++ s ++ g' = (g ++ a) ++ trim s ++ (b ++ g') := by
    conv_lhs => rw [hs]
    simp
  rw [hsplit, Text.trim_append_append (hg.append ha) (hb.append hg') (Text.trim_eq_nil_or_firm s)]

theorem Task.trim_plainText_blank_blank {g g' : Text} (hg : Blank g) (hg' : Blank g') (s : Text) :
    trim (plainText (g ++ s ++ g')) = trim (plainText s) := by
  have hreplace : ∀ {e : Text}, Blank e → Text.replace DateToken.arrow ' ' e = e := fun he =>
    replace_of_not_mem fun hmem => by cases he _ hmem
  have happend : ∀ x y, Text.replace DateToken.arrow ' ' (x ++ y) =
      Text.replace DateToken.arrow ' ' x ++ Text.replace DateToken.arrow ' ' y :=
    fun x y => List.map_append
  rw [plainText, plainText, DateToken.remove_blank_blank hg hg', happend, happend, hreplace hg,
    hreplace hg', Text.trim_collapse, Text.trim_collapse, Text.trim_blank_blank hg hg']

theorem Markup.wrappers_trim {s : Text} (h : wrappers s = []) : wrappers (trim s) = [] := by
  obtain ⟨g, g', hg, hg', hs⟩ := Text.exists_blank_trim_blank s
  have hgap : Passes g := .of_not_mem fun hmem => by cases hg _ hmem
  rw [hs, List.append_assoc, hgap.reads.wrappers, List.nil_append] at h
  exact (wrappers_append_blank_iff hg').mp h

theorem Task.trim_plainText_trim (s : Text) : trim (plainText (trim s)) = trim (plainText s) := by
  obtain ⟨g, g', hg, hg', hs⟩ := Text.exists_blank_trim_blank s
  conv_rhs => rw [hs, trim_plainText_blank_blank hg hg']

theorem DateToken.ordered_trim (s : Text) : ordered (trim s) = ordered s := by
  obtain ⟨g, g', hg, hg', hs⟩ := Text.exists_blank_trim_blank s
  conv_rhs => rw [hs, ordered_blank_blank hg hg']

theorem Slots.exists_place {ts : List Template} {x : Template} (hx : x ∈ ts) :
    ∃ y ∈ (ofTemplates ts).templates, y.place = x.place := by
  have hfind : ∀ q : Template.Place, x.place = q →
      ∃ y, ts.find? (·.place = q) = some y ∧ y.place = q := by
    intro q hq
    cases hy : ts.find? (·.place = q) with
    | none =>
        have := List.find?_eq_none.mp hy x hx
        simp [hq] at this
    | some y => exact ⟨y, rfl, by simpa using List.find?_some hy⟩
  have hfilter : ∀ q : Template.Place, x.place = q → x ∈ ts.filter (·.place = q) := by
    intro q hq
    simp [hx, hq]
  simp only [templates, ofTemplates_eq, List.mem_append, Option.mem_toList]
  cases hplace : x.place with
  | parentLink =>
      obtain ⟨y, hy, hq⟩ := hfind _ hplace
      exact ⟨y, by tauto, hq⟩
  | itemType =>
      obtain ⟨y, hy, hq⟩ := hfind _ hplace
      exact ⟨y, by tauto, hq⟩
  | assignee =>
      obtain ⟨y, hy, hq⟩ := hfind _ hplace
      exact ⟨y, by tauto, hq⟩
  | delegate =>
      obtain ⟨y, hy, hq⟩ := hfind _ hplace
      exact ⟨y, by tauto, hq⟩
  | state =>
      have := hfilter _ hplace
      exact ⟨x, by tauto, hplace⟩
  | metadata =>
      have := hfilter _ hplace
      exact ⟨x, by tauto, hplace⟩
  | other =>
      have := hfilter _ hplace
      exact ⟨x, by tauto, hplace⟩

theorem Slots.ofWrappers_singleton {w : Text} (hplace : (Template.read w).place = .other) :
    ofWrappers [w] = { others := [Template.read w] } := by
  simp [ofWrappers, ofTemplates_eq, hplace]

/-- If all that has a place is one of the other wrappers, nothing else was found. -/
theorem Slots.eq_singleton {ws : List Text} {w : Text} (hplace : (Template.read w).place = .other)
    (h : (ofWrappers ws).wrappers.Perm [w]) : ws = [w] := by
  obtain ⟨x, htemplates, hx⟩ := List.map_eq_singleton_iff.mp (List.perm_singleton.mp h)
  have hmem : x ∈ (ofWrappers ws).templates := by
    rw [htemplates]
    exact List.mem_singleton_self x
  obtain ⟨v, hv, rfl⟩ := exists_wrapper hmem
  obtain rfl : v = w := hx
  have hothers : ∀ x ∈ ws.map Template.read, x.place = .other := by
    intro x hx
    obtain ⟨y, hy, hyx⟩ := exists_place hx
    rw [show (ofTemplates (ws.map Template.read)).templates = [Template.read v] from htemplates,
      List.mem_singleton] at hy
    rw [← hyx, hy, hplace]
  have hall : (ofWrappers ws).others = ws.map Template.read := by
    rw [ofWrappers, ofTemplates_eq]
    exact List.filter_eq_self.mpr fun x hx => by simp [hothers x hx]
  have hle : (ofWrappers ws).others.length ≤ (ofWrappers ws).templates.length := by
    simp only [templates, List.length_append]
    omega
  rw [hall, htemplates, List.length_map, List.length_singleton] at hle
  obtain ⟨w, rfl⟩ := List.length_eq_one_iff.mp (Nat.le_antisymm hle (List.length_pos_of_mem hv))
  rw [List.mem_singleton.mp hv]

/-- The frame of a line that holds a landmark, a text behind it, and a block reference. -/
def landmarkFrame (n : Nat) (b : Text) : Frame where
  head := "- [x] ".toList
  rest := join [' '] (Markup.landmark n :: (present (some b)).toList) ++ " ^z".toList
  content := join [' '] (Markup.landmark n :: (present (some b)).toList) ++ [' ']
  blockId := some "^z".toList

/-- A line that holds a landmark, a text behind it, and a block reference. -/
def landmarkLine (n : Nat) (b : Text) : Text := (landmarkFrame n b).head ++ (landmarkFrame n b).rest

section Landmark

variable {n : Nat} {b : Text}

theorem leads_landmark (y : Text) : Leads (landmarkFrame n b).head y :=
  ⟨[], '-', [' '], ['x'], [' '], Blank.nil, .inl rfl, Blank.singleton (by decide),
    .mark Blank.nil (by decide) Blank.nil, Blank.singleton (by decide), rfl⟩

theorem read?_landmarkLine (hb : b = [] ∨ Firm b) :
    Frame.read? (landmarkLine n b) = some (landmarkFrame n b) := by
  have hfirm : ∀ w ∈ Markup.landmark n :: (present (some b)).toList, Firm w := by
    intro w hw
    rcases List.mem_cons.mp hw with rfl | hw
    · exact (Markup.closed_landmark n).firm
    · rw [Option.mem_toList, present, Option.filter_eq_some_iff] at hw
      obtain rfl := Option.some.inj hw.1
      exact hb.resolve_left (by simpa using hw.2)
  refine Frame.read?_eq_some_iff.mpr ⟨Line.splitHead?_eq_some_iff.mpr
    ⟨rfl, leads_landmark _, ?_⟩, ?_⟩
  · obtain ⟨c, cs, hc, hspace⟩ := (Markup.closed_landmark n).firm.cons_eq
    have hrest : (landmarkFrame n b).rest =
        Markup.landmark n ++ (row (present (some b)).toList ++ " ^z".toList) := by
      rw [← List.append_assoc, ← Text.join_cons]
      rfl
    rw [hrest, hc, List.cons_append, Text.trimLeft_cons hspace]
  · have hname : ∀ c ∈ ['z'], Line.isBlockChar c = true := by decide
    refine Line.splitBlockId_of_row (d := [' ']) (e := []) hfirm (List.cons_ne_nil _ _) hname
      (Blank.singleton (by decide)) Blank.nil ?_
    have hrest : ' ' :: (landmarkFrame n b).rest =
        ' ' :: join [' '] (Markup.landmark n :: (present (some b)).toList) ++ " ^z".toList := rfl
    rw [hrest, Text.space_join (List.cons_ne_nil _ _), List.append_assoc]
    rfl

/-- The landmark is the only wrapper, if there is none in the text. -/
theorem wrappers_landmark (hb : Markup.wrappers b = []) :
    Markup.wrappers (landmarkFrame n b).content = [Markup.landmark n] ∧
      ∃ g, Blank g ∧ Markup.removeWrappers (landmarkFrame n b).content = g ++ b ++ [' '] := by
  have hspace : Blank [' '] := Blank.singleton (by decide)
  have hreads := (Markup.closed_landmark n).reads
  have hcontent : (landmarkFrame n b).content =
      Markup.landmark n ++ (row (present (some b)).toList ++ [' ']) := by
    rw [← List.append_assoc, ← Text.join_cons]
    rfl
  obtain ⟨g, hg, hrow⟩ : ∃ g, Blank g ∧ row (present (some b)).toList = g ++ b := by
    by_cases hnil : b = []
    · exact ⟨[], Blank.nil, by rw [hnil]; rfl⟩
    · refine ⟨[' '], hspace, ?_⟩
      rw [present_of_ne_nil hnil, Option.toList_some, Text.row_cons, Text.row_nil, List.append_nil]
      rfl
  have hgap : Passes g := .of_not_mem fun hmem => by cases hg _ hmem
  have hnone : Markup.wrappers (g ++ b ++ [' ']) = [] := by
    rw [List.append_assoc, hgap.reads.wrappers, (Markup.wrappers_append_blank_iff hspace).mpr hb]
    rfl
  rw [hcontent, hreads.wrappers, hreads.remove, hrow, hnone,
    Markup.removeWrappers_of_wrappers_eq_nil hnone]
  exact ⟨rfl, [' '] ++ g, hspace.append hg, by simp⟩

theorem slots_landmark (hb : Markup.wrappers b = []) :
    (landmarkFrame n b).task.slots = { others := [Template.read (Markup.landmark n)] } := by
  have hslots : (landmarkFrame n b).task.slots =
      Slots.ofWrappers (Markup.wrappers (landmarkFrame n b).content) := rfl
  rw [hslots, (wrappers_landmark hb).1, Slots.ofWrappers_singleton (Markup.place_landmark n)]

/-- Text and tokens are those of the text behind the landmark. -/
theorem text_landmark (hb : Markup.wrappers b = []) :
    trim (landmarkFrame n b).task.text = trim (Task.plainText b) ∧
      (landmarkFrame n b).task.dates = DateToken.ordered b := by
  obtain ⟨g, hg, hremove⟩ := (wrappers_landmark (n := n) hb).2
  have hspace : Blank [' '] := Blank.singleton (by decide)
  rw [Frame.text_task, Frame.dates_task, hremove, DateToken.ordered_blank_blank hg hspace,
    Task.trim_plainText_blank_blank hg hspace]
  exact ⟨rfl, rfl⟩

theorem whole_landmark (hb : Markup.wrappers b = []) : (landmarkFrame n b).task.slots.Whole := by
  intro x hx
  rw [slots_landmark hb] at hx
  obtain rfl : x = Template.read (Markup.landmark n) := by simpa [Slots.written] using hx
  exact ⟨Markup.closed_landmark n, Markup.tidy_landmark n⟩

/-- The landmark is written behind the text and in front of the tokens. -/
theorem inner_landmark (hb : Markup.wrappers b = []) :
    (landmarkFrame n b).task.tidied.inner =
      (present (some (trim (Task.plainText b)))).toList ++
        Markup.landmark n :: (DateToken.ordered b).map collapse := by
  obtain ⟨htext, hdates⟩ := text_landmark (n := n) hb
  have hfront : (landmarkFrame n b).task.tidied.front = [] := by
    rw [Task.front_tidied, Task.front, slots_landmark hb]
    rfl
  have htags : (landmarkFrame n b).task.tidied.tags = [Markup.landmark n] := by
    rw [Task.tags_tidied, Task.tags, slots_landmark hb]
    rfl
  rw [Task.inner, hfront, htags, Task.text_tidied, Task.dates_tidied, htext, hdates]
  simp

/-- The wrappers of the line that is written. -/
theorem wrappersOf_landmark (hfirm : b = [] ∨ Firm b) (hb : Markup.wrappers b = []) :
    Task.wrappersOf (formatLine {} (landmarkLine n b)) =
      (Slots.ofWrappers (Markup.wrappers (trim (Task.plainText b) ++ ' ' ::
        (Markup.landmark n ++ (row ((DateToken.ordered b).map collapse) ++ [' ']))))).wrappers := by
  have hblock : (landmarkFrame n b).blockId ≠ none := Option.some_ne_none _
  generalize hT : trim (Task.plainText b) = T
  have hformat := Frame.wrappersOf_formatLine_of_blockId (read?_landmarkLine (n := n) hfirm)
    (whole_landmark hb) leads_landmark hblock
  have hjoin : ∀ ws : List Text, Markup.wrappers (join [' '] ((present (some T)).toList ++
      Markup.landmark n :: ws) ++ [' ']) =
      Markup.wrappers (T ++ ' ' :: (Markup.landmark n ++ (row ws ++ [' ']))) := by
    intro ws
    by_cases hnil : T = []
    · rw [hnil, List.nil_append, Markup.wrappers_cons_of_ne (by decide)]
      simp [present, Option.filter, Text.join_cons]
    · rw [present_of_ne_nil hnil]
      simp [Text.join_cons, Text.row_cons]
  rw [hformat, inner_landmark hb, hT, hjoin]

/-- If the landmark survives, the scanner comes out of the text, and nothing is found in the
tokens. -/
theorem passes_of_survives (hfirm : b = [] ∨ Firm b) (hb : Markup.wrappers b = [])
    (hn : (trim (Task.plainText b)).length +
      (row ((DateToken.ordered b).map collapse) ++ [' ']).length < n)
    (h : (Task.wrappersOf (formatLine {} (landmarkLine n b))).Perm
      (Task.wrappersOf (landmarkLine n b))) :
    Passes (trim (Task.plainText b)) ∧
      Markup.wrappers (join [' '] ((DateToken.ordered b).map collapse)) = [] := by
  have hspace : Blank [' '] := Blank.singleton (by decide)
  have hplace := Markup.place_landmark n
  have hlen := Markup.lt_length_landmark n
  have hline : Task.wrappersOf (landmarkLine n b) = [Markup.landmark n] := by
    rw [Frame.wrappersOf_eq (read?_landmarkLine hfirm), (wrappers_landmark hb).1,
      Slots.ofWrappers_singleton hplace]
    rfl
  rw [hline, wrappersOf_landmark hfirm hb] at h
  have hone := Slots.eq_singleton hplace h
  obtain ⟨heq, hpasses⟩ := Markup.wrappers_of_mem (Markup.closed_landmark n)
    (Markup.space_not_mem_landmark n) (Markup.singular_landmark (by omega)) (by omega)
    (hone ▸ List.mem_singleton_self _)
  rw [hone] at heq
  -- what is found in front of the landmark and behind it is nothing
  have hcount := congrArg List.length heq
  simp only [List.length_append, List.length_cons, List.length_nil] at hcount
  have htext := List.eq_nil_of_length_eq_zero (l := Markup.wrappers (trim (Task.plainText b)))
    (by omega)
  have htokens := List.eq_nil_of_length_eq_zero
    (l := Markup.wrappers (row ((DateToken.ordered b).map collapse) ++ [' '])) (by omega)
  refine ⟨hpasses htext, ?_⟩
  rw [Markup.wrappers_append_blank_iff hspace] at htokens
  by_cases hnil : (DateToken.ordered b).map collapse = []
  · rw [hnil]
    rfl
  · rwa [← Text.space_join hnil, Markup.wrappers_cons_of_ne (by decide)] at htokens

end Landmark

/-- Wrappers survive next to a text and to tokens exactly if the text leaves no tag open and no
wrapper begins in the text or in the tokens. -/
theorem wrappersOf_formatLine_perm_iff {line₀ : Text} {task₀ : Task}
    (hread₀ : Task.read? line₀ = some task₀) :
    (∀ line task, Task.read? line = some task → trim task.text = trim task₀.text →
      task.dates = task₀.dates → (∀ w ∈ task.slots.wrappers, Closed w ∧ Tidy w) →
      (task.slots.delegate ≠ none → task.slots.assignee ≠ none) →
      (Task.wrappersOf (formatLine {} line)).Perm (Task.wrappersOf line)) ↔
    Passes (trim task₀.text) ∧
      Markup.wrappers (join [' '] (task₀.dates.map collapse)) = [] := by
  obtain ⟨frame₀, hframe₀, rfl⟩ := Frame.exists_of_task hread₀
  constructor
  · intro h
    have hfirm := Text.trim_eq_nil_or_firm (Markup.removeWrappers frame₀.content)
    have hb := Markup.wrappers_trim (Markup.wrappers_removeWrappers frame₀.content)
    have htextb := Task.trim_plainText_trim (Markup.removeWrappers frame₀.content)
    have hdatesb := DateToken.ordered_trim (Markup.removeWrappers frame₀.content)
    generalize hbare : trim (Markup.removeWrappers frame₀.content) = b at hfirm hb htextb hdatesb
    have htask := text_landmark (n := (trim (Task.plainText b)).length +
      (row ((DateToken.ordered b).map collapse) ++ [' ']).length + 1) hb
    have hsurvives := passes_of_survives hfirm hb (Nat.lt_succ_self _) <|
      h _ _ (Frame.read?_task (read?_landmarkLine hfirm))
        (by rw [htask.1, htextb, Frame.text_task]) (by rw [htask.2, hdatesb, Frame.dates_task])
        (by
          intro w hw
          rw [slots_landmark hb] at hw
          obtain rfl := List.mem_singleton.mp hw
          exact ⟨Markup.closed_landmark _, Markup.tidy_landmark _⟩)
        (by
          rw [slots_landmark hb]
          exact fun hne => absurd rfl hne)
    rw [htextb, hdatesb] at hsurvives
    rw [Frame.text_task, Frame.dates_task]
    exact hsurvives
  · rintro ⟨hpasses, hdates⟩ line task hread htext htokens hwrappers hdelegate
    obtain ⟨frame, hframe, rfl⟩ := Frame.exists_of_task hread
    have hwhole : frame.task.slots.Whole := fun x hx =>
      hwrappers _ (List.mem_map_of_mem (Slots.mem_templates_of_written hx))
    refine Frame.wrappersOf_formatLine_perm hframe hwhole hdelegate ?_ ?_
    · rw [Task.text_tidied, htext]
      exact hpasses
    · rw [Task.dates_tidied, htokens]
      exact hdates

/-- A wrapper behind a text that holds a tag. -/
def taggedLine : Text :=
  "- [ ] a<b>c <span data-template-key=\"k\">x</span> 📅 2024-01-01".toList

theorem wrappersOf_taggedLine_perm :
    (Task.wrappersOf (formatLine {} taggedLine)).Perm (Task.wrappersOf taggedLine) := by
  have hpasses : Passes "a<b>c".toList :=
    .char (by decide) <| .tag (t := "<b>".toList) ⟨⟨_, rfl⟩, fun _ => rfl⟩ (by decide) <|
      .char (by decide) .nil
  obtain ⟨task, hread, htext, hdates, hwrappers, hdelegate⟩ : ∃ task,
      Task.read? taggedLine = some task ∧ trim task.text = "a<b>c".toList ∧
        Markup.wrappers (join [' '] (task.dates.map collapse)) = [] ∧
        (∀ w ∈ task.slots.wrappers, Closed w ∧ Tidy w) ∧ task.slots.delegate = none :=
    ⟨_, rfl, by decide +kernel⟩
  exact (wrappersOf_formatLine_perm_iff hread).mpr ⟨htext ▸ hpasses, hdates⟩ taggedLine task hread
    rfl rfl hwrappers fun hne => absurd hdelegate hne

/-- A text behind a wrapper that leaves a tag open. -/
def openedLine : Text := "- [ ] <span data-template-key=\"k\">x</span> a < b".toList

/-- The wrapper is then written behind the text, where it is a part of the tag. -/
theorem openedLine_hides_wrapper :
    ¬ ∀ line frame, Frame.read? line = some frame →
      (∀ w ∈ Markup.wrappers frame.content, Closed w ∧ Tidy w) →
      (frame.task.slots.delegate ≠ none → frame.task.slots.assignee ≠ none) →
      (Task.wrappersOf (formatLine {} line)).Perm (Task.wrappersOf line) := by
  intro h
  have hperm := (h openedLine _ rfl (by decide +kernel) (by decide +kernel)).length_eq
  revert hperm
  decide +kernel

end TaskLine
