import TaskLine.Proofs.Clearing
import TaskLine.Proofs.Found
import TaskLine.Proofs.Frame
import TaskLine.Proofs.Layout
import TaskLine.Proofs.TrailingSpace

/-!
# Words behind a head

The words of a task that is *sound* (`Task.Sound`) can be told apart once they
stand behind its head: wrappers are closed and are in their places, tokens
begin and end as tokens do, and no word has white space at its ends. Head and
block reference come off such a line again (`Task.Sound.splitHead?_eq`,
`Task.Sound.splitBlockId_eq`). If besides nothing between the wrappers begins
one (`Task.Clear`), the wrappers on the line are those of the task
(`Task.Sound.scan_inner`).
-/

namespace TaskLine

open Text (Blank Firm Tidy row join collapse)
open Markup (Template Closed Passes Reads)
open DateToken (Tokenlike Unglued arrow)
open Line (EndsInReference Leads)

/-- A closed wrapper that is read as this template. -/
structure Markup.Template.Sound (tpl : Template) : Prop where
  read_eq : Template.read tpl.html = tpl
  closed : Closed tpl.html

/-- A block reference: a caret and a name. -/
def IsReference (b : Text) : Prop :=
  ∃ name, name ≠ [] ∧ (∀ c ∈ name, Line.isBlockChar c = true) ∧ b = '^' :: name

theorem IsReference.firm {b : Text} (h : IsReference b) : Firm b := by
  obtain ⟨name, hne, hname, rfl⟩ := h
  refine Text.firm_of_cons_eq_concat (t := '^' :: name.dropLast) (by decide)
    (Line.isSpace_of_isBlockChar (hname _ (List.getLast_mem hne))) ?_
  rw [List.cons_append, List.dropLast_concat_getLast]

theorem IsReference.tidy {b : Text} (h : IsReference b) : Tidy b := by
  obtain ⟨name, -, hname, rfl⟩ := h
  rw [← Text.collapse_of_not_space (s := '^' :: name)]
  · exact Text.tidy_collapse _
  · intro c hc
    rcases List.mem_cons.mp hc with rfl | hc
    · decide
    · exact Line.isSpace_of_isBlockChar (hname c hc)

/-- The parts of the task are whole and in their places. -/
structure Task.Sound (t : Task) : Prop where
  slots : Slots.ofTemplates t.slots.templates = t.slots
  templates : ∀ x ∈ t.slots.templates, x.Sound
  delegate : t.slots.delegate ≠ none → t.slots.assignee ≠ none
  text : t.text = [] ∨ Firm t.text
  tokens : ∀ w ∈ t.dates, Tokenlike w
  blockId : ∀ b, t.blockId = some b → IsReference b

/-- No wrapper begins in the text or in the tokens. The scanner comes out of the text between
tags, or no wrapper stands behind it. -/
def Task.Clear (t : Task) : Prop :=
  (Passes t.text ∧ Markup.wrappers (join [' '] t.dates) = []) ∨
    (t.tags = [] ∧ Markup.wrappers (join [' '] ((present (some t.text)).toList ++ t.dates)) = [])

/-! ## Words -/

theorem EndsInReference.of_row {ws : List Text} (hws : ∀ w ∈ ws, Firm w) {g : Text}
    (hg : Blank g) (h : EndsInReference (row ws ++ g)) :
    ∃ w, ws.getLast? = some w ∧ EndsInReference w := by
  rcases ws.eq_nil_or_concat with rfl | ⟨ws, w, rfl⟩
  · have := hg _ (Line.endsInReference_caret h)
    cases this
  · rw [List.concat_eq_append] at h hws ⊢
    refine ⟨w, by simp, ?_⟩
    rw [Text.row_append, Text.row_cons, Text.row_nil, List.append_nil, List.append_assoc,
      List.cons_append] at h
    exact h.of_word (by decide) (hws w (by simp)) hg

theorem EndsInReference.of_join {ws : List Text} (hws : ∀ w ∈ ws, Firm w) {g : Text}
    (hg : Blank g) (h : EndsInReference (join [' '] ws ++ g)) :
    ∃ w, ws.getLast? = some w ∧ EndsInReference w := by
  by_cases hnil : ws = []
  · rw [hnil] at h
    have := hg _ (Line.endsInReference_caret h)
    cases this
  · obtain ⟨y, name, d, hne, hname, hd, heq⟩ := h
    refine EndsInReference.of_row hws hg ⟨' ' :: y, name, d, hne, hname, hd, ?_⟩
    rw [← Text.space_join hnil, List.cons_append, heq]
    rfl

/-- A block reference at the end of a row, and white space in front of it. -/
theorem Line.splitBlockId_of_row {s name d e : Text} {ws : List Text} (hws : ∀ w ∈ ws, Firm w)
    (hne : name ≠ []) (hname : ∀ c ∈ name, Line.isBlockChar c = true) (hd : Blank d) (he : Blank e)
    (h : ' ' :: s = row ws ++ d ++ '^' :: (name ++ e)) :
    Line.splitBlockId s = (join [' '] ws ++ [' '], some ('^' :: name)) := by
  by_cases hnil : ws = []
  · subst hnil
    cases d with
    | nil => cases (List.cons.inj h).1
    | cons c d =>
        obtain rfl : s = d ++ '^' :: (name ++ e) := (List.cons.inj h).2
        rw [Line.splitBlockId_append hne hname he,
          Text.trimRight_blank fun b hb => hd b (List.mem_cons_of_mem _ hb)]
        rfl
  · rw [← Text.space_join hnil] at h
    obtain rfl : s = join [' '] ws ++ d ++ '^' :: (name ++ e) := (List.cons.inj h).2
    rw [Line.splitBlockId_append hne hname he, Text.trimRight_append hd, Text.trimRight_join hws]

theorem DateToken.Tokenlike.not_endsInReference {t : Text} (h : Tokenlike t) :
    ¬EndsInReference t := by
  rcases h.ends with ⟨s, r, -, ⟨g, d, hg, hne, hd, rfl⟩, rfl⟩ | ⟨s, rfl⟩ | rfl | rfl
  · intro href
    -- the date is a word of its own
    have hsplit : s ++ (g ++ d) = (s ++ g.dropLast) ++ g.getLast hne :: (d ++ []) := by
      conv_lhs => rw [← List.dropLast_concat_getLast hne]
      simp
    rw [hsplit] at href
    have hlast := hg _ (List.getLast_mem hne)
    rcases hd.mem (Line.endsInReference_caret (href.of_word hlast hd.firm Blank.nil)) with h | h
    · cases h
    · cases h
  · exact Line.not_endsInReference_concat (by decide) (by decide) s
  · exact fun href => absurd (Line.endsInReference_caret href) (by decide)
  · exact fun href => absurd (Line.endsInReference_caret href) (by decide)

theorem Markup.Closed.not_endsInReference {w : Text} (h : Closed w) : ¬EndsInReference w := by
  obtain ⟨_, -, ds, rfl⟩ := h.exists_ends
  exact Line.not_endsInReference_concat (by decide) (by decide) ds

/-- A row without its first space. -/
theorem space_join_append (ws : List Text) (g : Text) :
    ∃ g', (∀ c ∈ g', c = ' ' ∨ c ∈ g) ∧ (ws ≠ [] → g' = g) ∧
      ' ' :: (join [' '] ws ++ g) = row ws ++ g' := by
  by_cases hws : ws = []
  · subst hws
    refine ⟨' ' :: g, ?_, fun h => absurd rfl h, rfl⟩
    intro c hc
    exact List.mem_cons.mp hc
  · refine ⟨g, fun c hc => .inr hc, fun _ => rfl, ?_⟩
    rw [← List.cons_append, Text.space_join hws]

theorem replace_of_not_mem {a b : Char} {s : Text} (h : a ∉ s) : Text.replace a b s = s := by
  refine (List.map_congr_left fun c hc => ?_).trans (List.map_id _)
  rw [if_neg]
  · rfl
  · rintro rfl
    exact h hc

theorem Markup.removeWrappers_space_cons (s : Text) :
    Markup.removeWrappers (' ' :: s) = ' ' :: Markup.removeWrappers s := by
  rw [Markup.removeWrappers, Markup.chunks_cons_of_ne (by decide), Chunk.cleared_cons]
  rfl

/-- Words that the scanner passes over. -/
theorem Passes.row {ws : List Text} (h : ∀ w ∈ ws, Passes w) : Passes (row ws) := by
  induction ws with
  | nil => exact .nil
  | cons w ws ih =>
      rw [Text.row_cons]
      refine .char (by decide) ((h w List.mem_cons_self).append ?_)
      exact ih fun v hv => h v (List.mem_cons_of_mem _ hv)

/-- Wrappers and arrows: the wrappers are found, and spaces and the arrows are left. -/
theorem reads_row_tags {ws : List Text} (h : ∀ w ∈ ws, Closed w ∨ w = [arrow]) :
    ∃ mid, Reads (row ws) (ws.filter (· ≠ [arrow])) mid ∧
      (∀ c ∈ mid, c = ' ' ∨ c = arrow ∧ [arrow] ∈ ws) ∧ (ws = [] → mid = []) ∧ Unglued mid := by
  induction ws with
  | nil => exact ⟨[], .nil, by simp, fun _ => rfl, DateToken.unglued_nil⟩
  | cons w ws ih =>
      obtain ⟨mid, hmid, hchars, -, -⟩ := ih fun v hv => h v (List.mem_cons_of_mem _ hv)
      have hrest : ∀ c ∈ mid, c = ' ' ∨ c = arrow ∧ [arrow] ∈ w :: ws := fun c hc =>
        (hchars c hc).imp_right fun hc => ⟨hc.1, List.mem_cons_of_mem _ hc.2⟩
      have hspace : Reads [' '] [] [' '] := (Passes.of_not_mem (by decide)).reads
      rw [Text.row_cons, ← List.singleton_append, List.filter_cons]
      rcases h w List.mem_cons_self with hw | rfl
      · have hne : w ≠ [arrow] := by
          obtain ⟨cs, rfl, -⟩ := hw.exists_ends
          rintro h
          cases (List.cons.inj h).1
        rw [if_pos (by simpa using hne)]
        refine ⟨_, hspace.append (hw.reads.append hmid), fun c hc => ?_,
          fun h => absurd h (List.cons_ne_nil _ _), DateToken.unglued_cons (by decide) _⟩
        simp only [List.mem_append, List.mem_singleton] at hc
        rcases hc with hc | hc | hc
        · exact .inl hc
        · exact .inl hc
        · exact hrest c hc
      · have harrow : Reads [arrow] [] [arrow] := (Passes.of_not_mem (by decide)).reads
        rw [if_neg (by simp)]
        refine ⟨_, hspace.append (harrow.append hmid), fun c hc => ?_,
          fun h => absurd h (List.cons_ne_nil _ _), DateToken.unglued_cons (by decide) _⟩
        simp only [List.mem_append, List.mem_singleton] at hc
        rcases hc with hc | hc | hc
        · exact .inl hc
        · exact .inr ⟨hc, List.mem_cons_self⟩
        · exact hrest c hc

/-- Spelled tokens hold no wrappers. -/
theorem DateToken.wrappers_join_spelled {ts : List (DateToken.Shape × Text)}
    (h : ∀ x ∈ ts, x.1.Spelled x.2) : Markup.wrappers (join [' '] (ts.map Prod.snd)) = [] := by
  have hrow : Passes (row (ts.map Prod.snd)) := Passes.row fun w hw => by
    obtain ⟨x, hx, rfl⟩ := List.mem_map.mp hw
    exact (h x hx).passes
  by_cases hts : ts.map Prod.snd = []
  · rw [hts]
    rfl
  · rw [← Text.space_join hts] at hrow
    rw [← Markup.wrappers_cons_of_ne (c := ' ') (by decide)]
    exact hrow.reads.wrappers_eq

namespace Task.Sound

variable {t : Task}

theorem closed (h : t.Sound) {w : Text} (hw : w ∈ t.slots.wrappers) : Closed w := by
  obtain ⟨x, hx, rfl⟩ := List.mem_map.mp hw
  exact (h.templates x hx).closed

theorem closed_front (h : t.Sound) {w : Text} (hw : w ∈ t.front) : Closed w := by
  obtain ⟨x, hx, rfl⟩ := exists_template_of_mem_front hw
  exact (h.templates x hx).closed

theorem closed_tags (h : t.Sound) {w : Text} (hw : w ∈ t.tags) :
    Closed w ∨ w = [arrow] := by
  by_cases harrow : w = [arrow]
  · exact .inr harrow
  refine .inl (h.closed ?_)
  simp only [tags, List.map_append, List.mem_append] at hw
  simp only [Slots.wrappers, Slots.templates, List.map_append, List.mem_append]
  have hpeople : w ∈ t.slots.people →
      w ∈ t.slots.assignee.toList.map (·.html) ∨ w ∈ t.slots.delegate.toList.map (·.html) := by
    intro hw
    unfold Slots.people at hw
    cases ha : t.slots.assignee <;> cases hd : t.slots.delegate <;> simp_all
  tauto

/-- The wrappers on the line are those of the slots, place by place. -/
theorem wrappers_eq (h : t.Sound) :
    t.front ++ t.tags.filter (· ≠ [arrow]) = t.slots.wrappers := by
  have hkeep : ∀ xs : List Template, (∀ x ∈ xs, x ∈ t.slots.templates) →
      (xs.map (·.html)).filter (· ≠ [arrow]) = xs.map (·.html) := by
    intro xs hxs
    refine List.filter_eq_self.mpr fun w hw => ?_
    obtain ⟨x, hx, rfl⟩ := List.mem_map.mp hw
    obtain ⟨cs, hcs, -⟩ := (h.templates x (hxs x hx)).closed.exists_ends
    simp [hcs, arrow]
  have hpeople : t.slots.people.filter (· ≠ [arrow]) =
      (t.slots.assignee.toList ++ t.slots.delegate.toList).map (·.html) := by
    have hwraps := hkeep (t.slots.assignee.toList ++ t.slots.delegate.toList) fun x hx => by
      simp only [Slots.templates, List.mem_append] at hx ⊢
      tauto
    rw [← hwraps]
    have hdelegate := h.delegate
    unfold Slots.people
    cases ha : t.slots.assignee with
    | none =>
        rw [ha] at hdelegate
        have hnone : t.slots.delegate = none := by simpa using hdelegate
        simp [hnone]
    | some a => cases hd : t.slots.delegate <;> simp [List.filter_cons]
  have hstates := hkeep t.slots.states fun x hx => by
    simp only [Slots.templates, List.mem_append]
    tauto
  have hothers := hkeep t.slots.others fun x hx => by
    simp only [Slots.templates, List.mem_append]
    tauto
  have hmetadata := hkeep t.slots.metadata fun x hx => by
    simp only [Slots.templates, List.mem_append] at hx ⊢
    tauto
  simp only [front, tags, List.map_append, List.filter_append, hstates, hothers, hpeople,
    hmetadata, Slots.wrappers, Slots.templates, List.append_assoc]

theorem ofWrappers_eq (h : t.Sound) : Slots.ofWrappers t.slots.wrappers = t.slots := by
  rw [Slots.ofWrappers, Slots.wrappers, List.map_map]
  have hread : t.slots.templates.map (Template.read ∘ (·.html)) = t.slots.templates :=
    (List.map_congr_left fun x hx => (h.templates x hx).read_eq).trans (List.map_id _)
  rw [hread, h.slots]

theorem firm_words (h : t.Sound) {w : Text} (hw : w ∈ t.words) : Firm w := by
  rcases mem_words hw with hw | rfl | ⟨rfl, hne⟩ | hw | hw
  · exact (h.closed hw).firm
  · decide
  · exact h.text.resolve_left hne
  · exact (h.tokens w hw).firm
  · exact (h.blockId w hw).firm

theorem firm_inner (h : t.Sound) {w : Text} (hw : w ∈ t.inner) : Firm w := by
  refine h.firm_words ?_
  rw [words_eq_inner]
  exact List.mem_append_left _ hw

theorem tidy_words (h : t.Sound) (hwrappers : ∀ w ∈ t.slots.wrappers, Tidy w)
    (htext : Tidy t.text) (hdates : ∀ w ∈ t.dates, Tidy w) {w : Text} (hw : w ∈ t.words) :
    Tidy w := by
  rcases mem_words hw with hw | rfl | ⟨rfl, -⟩ | hw | hw
  · exact hwrappers w hw
  · exact .singleton _
  · exact htext
  · exact hdates w hw
  · exact (h.blockId w hw).tidy

theorem back_eq_nil_iff (h : t.Sound) :
    t.back = [] ↔ t.tags = [] ∧ t.dates = [] ∧ t.blockId = none := by
  have hblock : (present t.blockId).toList = [] ↔ t.blockId = none := by
    cases hb : t.blockId with
    | none => simp [present]
    | some b => simp [present_of_ne_nil (h.blockId b hb).firm.ne_nil]
  rw [back, List.append_eq_nil_iff, List.append_eq_nil_iff, hblock, and_assoc]

/-- A task without a block reference does not end in one if its text does not. -/
theorem not_endsInReference (h : t.Sound) (htext : t.back = [] → ¬EndsInReference t.text)
    (hblock : t.blockId = none) {g : Text} (hg : Blank g) :
    ¬EndsInReference (join [' '] t.words ++ g) := by
  intro href
  have hwords : t.words = t.inner := by
    rw [words_eq_inner, hblock]
    exact List.append_nil _
  have htag : ∀ w, Closed w ∨ w = [arrow] → ¬EndsInReference w := by
    rintro w (hw | rfl)
    · exact hw.not_endsInReference
    · exact fun href => absurd (Line.endsInReference_caret href) (by decide)
  rw [hwords] at href
  obtain ⟨w, hlast, hw⟩ := EndsInReference.of_join (fun w hw => h.firm_inner hw) hg href
  have hback : t.back = t.tags ++ t.dates := by
    rw [back, hblock]
    exact List.append_nil _
  rw [inner, List.append_assoc, ← hback, List.getLast?_append] at hlast
  cases hb : t.back.getLast? with
  | some v =>
      rw [hb] at hlast
      obtain rfl := Option.some.inj hlast
      have hmem := List.mem_of_getLast? hb
      rw [hback, List.mem_append] at hmem
      rcases hmem with hmem | hmem
      · exact htag v (h.closed_tags hmem) hw
      · exact (h.tokens v hmem).not_endsInReference hw
  | none =>
      rw [hb, Option.none_or] at hlast
      have hmem := List.mem_of_getLast? hlast
      rw [List.mem_append, Option.mem_toList] at hmem
      rcases hmem with hmem | hmem
      · exact htag w (.inl (h.closed_front hmem)) hw
      · refine htext (List.getLast?_eq_none_iff.mp hb) ?_
        rw [present, Option.filter_eq_some_iff] at hmem
        obtain rfl := Option.some.inj hmem.1
        exact hw

/-- The block reference comes off the end of the words. -/
theorem splitBlockId_eq (h : t.Sound) (htext : t.back = [] → ¬EndsInReference t.text) {g : Text}
    (hg : Blank g) :
    ∃ g', Blank g' ∧ (∀ c ∈ g', c = ' ' ∨ c ∈ g) ∧ (t.blockId = none → g' = g) ∧
      (t.blockId ≠ none → g' = [' ']) ∧
      Line.splitBlockId (join [' '] t.words ++ g) = (join [' '] t.inner ++ g', t.blockId) := by
  cases hblock : t.blockId with
  | none =>
      refine ⟨g, hg, fun c hc => .inr hc, fun _ => rfl, fun hne => absurd rfl hne, ?_⟩
      rw [Line.splitBlockId_of_not (h.not_endsInReference htext hblock hg), words_eq_inner, hblock]
      simp [present]
  | some b =>
      obtain ⟨name, hne, hname, rfl⟩ := h.blockId b hblock
      have hspace : Blank [' '] := Blank.singleton (by decide)
      refine ⟨[' '], hspace, by simp, by simp, fun _ => rfl, ?_⟩
      have hwords : t.words = t.inner ++ ['^' :: name] := by
        rw [words_eq_inner, hblock, present_of_ne_nil (List.cons_ne_nil _ _)]
        rfl
      refine Line.splitBlockId_of_row (fun w hw => h.firm_inner hw) hne hname hspace hg ?_
      rw [← List.cons_append, Text.space_join (by rw [hwords]; simp), hwords, Text.row_append]
      simp

/-- Words without wrappers are left as they are. -/
theorem scan_row {ws : List Text} (hws : Markup.wrappers (join [' '] ws) = []) {g : Text}
    (hg : Blank g) :
    Markup.wrappers (row ws ++ g) = [] ∧ Markup.removeWrappers (row ws ++ g) = row ws ++ g := by
  have hnone : Markup.wrappers (row ws ++ g) = [] := by
    by_cases hempty : ws = []
    · subst hempty
      exact (Markup.wrappers_append_blank_iff (s := []) hg).mpr rfl
    · rw [← Text.space_join hempty, List.cons_append,
        Markup.wrappers_cons_of_ne (c := ' ') (by decide)]
      exact (Markup.wrappers_append_blank_iff hg).mpr hws
  exact ⟨hnone, Markup.removeWrappers_of_wrappers_eq_nil hnone⟩

/-- What the wrappers among the words are, and what is left of the words without them. -/
theorem scan_inner (h : t.Sound) (hclear : t.Clear) {g : Text} (hg : Blank g) :
    ∃ m m', (∀ c ∈ m, c = ' ') ∧ (∀ c ∈ m', c = ' ' ∨ c = arrow) ∧ (t.tags = [] → m' = []) ∧
      Unglued m' ∧ Markup.wrappers (row t.inner ++ g) = t.slots.wrappers ∧
      Markup.removeWrappers (row t.inner ++ g) =
        m ++ row (present (some t.text)).toList ++ m' ++ row t.dates ++ g := by
  obtain ⟨m, hm, hmc, -⟩ := reads_row_tags fun w hw => .inl (h.closed_front hw)
  obtain ⟨m', hm', hmc', hnil, hglue⟩ := reads_row_tags fun w hw => h.closed_tags hw
  have hfront : t.front.filter (· ≠ [arrow]) = t.front := by
    refine List.filter_eq_self.mpr fun w hw => ?_
    obtain ⟨cs, hcs, -⟩ := (h.closed_front hw).exists_ends
    simp [hcs, arrow]
  rw [hfront] at hm
  have hmspace : ∀ c ∈ m, c = ' ' := fun c hc => by
    rcases hmc c hc with hc | ⟨-, hmem⟩
    · exact hc
    · obtain ⟨cs, hcs, -⟩ := (h.closed_front hmem).exists_ends
      cases (List.cons.inj hcs).1
  refine ⟨m, m', hmspace, fun c hc => (hmc' c hc).imp_right And.left, hnil, hglue, ?_⟩
  rcases hclear with ⟨hpasses, hnone⟩ | ⟨htags, hnone⟩
  · have htext : Reads (row (present (some t.text)).toList) []
        (row (present (some t.text)).toList) := by
      refine (Passes.row fun w hw => ?_).reads
      rw [Option.mem_toList, present, Option.filter_eq_some_iff] at hw
      obtain rfl := Option.some.inj hw.1
      exact hpasses
    obtain ⟨hwrappers, hremove⟩ := scan_row hnone hg
    have hall := (hm.append htext).append hm'
    have hrow : row t.inner ++ g =
        row t.front ++ row (present (some t.text)).toList ++ row t.tags ++ (row t.dates ++ g) := by
      simp only [inner, Text.row_append, List.append_assoc]
    rw [hrow, hall.wrappers, hall.remove, hwrappers, hremove, ← h.wrappers_eq]
    simp only [List.append_nil, List.append_assoc, and_self]
  · obtain ⟨hwrappers, hremove⟩ := scan_row hnone hg
    have hrow : row t.inner ++ g =
        row t.front ++ (row ((present (some t.text)).toList ++ t.dates) ++ g) := by
      simp only [inner, htags, Text.row_append, List.append_nil, List.append_assoc]
    rw [hrow, hm.wrappers, hm.remove, hwrappers, hremove, hnil htags, ← h.wrappers_eq, htags]
    simp only [Text.row_append, List.filter_nil, List.append_nil, List.append_assoc, and_self]

/-- The head comes off the front of the words. -/
theorem splitHead?_eq (h : t.Sound) (hhead : Leads t.head (join [' '] t.words)) {g : Text}
    (hempty : t.words = [] → g = []) :
    Line.splitHead? (t.head ++ (join [' '] t.words ++ g)) =
      some (t.head, join [' '] t.words ++ g) := by
  refine Line.splitHead?_eq_some_iff.mpr ⟨rfl, ?_, ?_⟩
  · cases hwords : t.words with
    | nil =>
        rw [hempty hwords, ← hwords, List.append_nil]
        exact hhead
    | cons w ws =>
        obtain ⟨c, cs, rfl, -⟩ := (h.firm_words (hwords ▸ List.mem_cons_self)).cons_eq
        rw [hwords, Text.join_cons] at hhead
        rw [Text.join_cons]
        exact hhead.congr id
  · cases hwords : t.words with
    | nil =>
        rw [hempty hwords]
        rfl
    | cons w ws =>
        obtain ⟨c, cs, rfl, hc⟩ := (h.firm_words (hwords ▸ List.mem_cons_self)).cons_eq
        rw [Text.join_cons]
        exact Text.trimLeft_cons hc _

/-- A line ends with its last word. -/
theorem trimRight_words (h : t.Sound) (hne : t.words ≠ []) {h₀ : Text}
    (hhead : t.head = h₀ ++ [' ']) :
    Text.trimRight (t.head ++ join [' '] t.words) = t.head ++ join [' '] t.words := by
  have hrow := Text.trimRight_row (fun w hw => h.firm_words hw) h₀ hne
  have hsplit : t.head ++ join [' '] t.words = h₀ ++ row t.words := by
    rw [← Text.space_join hne, hhead, List.append_assoc, List.singleton_append]
  rw [hsplit, hrow]

/-- How a task is laid out: its words behind its head, and one space at the end if they
end in a tag. -/
theorem guardTag_collapse (h : t.Sound) (hlead : Leads t.head (join [' '] t.words)) {k : Text}
    (hhead : t.head = k ++ [' '])
    (htidy : Tidy k) (hlast : ∀ c, k.getLast? = some c → Text.isSpace c = false)
    (hwords : ∀ w ∈ t.words, Tidy w) :
    ∃ g, (g = [] ∨ g = [' ']) ∧ (t.words = [] → g = []) ∧
      Line.guardTag (collapse (t.head ++ row t.words)) = t.head ++ (join [' '] t.words ++ g) := by
  have hline : collapse (t.head ++ row t.words) = t.head ++ join [' '] t.words := by
    rw [hhead, List.append_assoc, List.append_assoc]
    exact Text.collapse_append_row htidy hlast fun w hw => ⟨h.firm_words hw, hwords w hw⟩
  rw [hline]
  by_cases hempty : t.words = []
  · refine ⟨[], .inl rfl, fun _ => rfl, ?_⟩
    rw [hempty, show join [' '] [] = [] from rfl, List.append_nil, Line.guardTag,
      hlead.endsInTag]
    simp
  · rcases Line.guardTag_of_trimmed (h.trimRight_words hempty hhead) with heq | heq
    · exact ⟨[], .inl rfl, fun _ => rfl, by rw [heq, List.append_nil]⟩
    · exact ⟨[' '], .inr rfl, fun hw => absurd hw hempty, by rw [heq, List.append_assoc]⟩

/-- Only the text can begin with a bracket. -/
theorem eq_text_of_bracket (h : t.Sound) {w : Text} (hw : w ∈ t.words)
    (hhead : w.head? = some ']') : w = t.text := by
  rcases mem_words hw with hw | rfl | ⟨rfl, -⟩ | hw | hw
  · obtain ⟨cs, hcs, -⟩ := (h.closed hw).exists_ends
    rw [hcs] at hhead
    cases hhead
  · cases hhead
  · rfl
  · obtain ⟨m, tail, ht, hm⟩ := (h.tokens w hw).exists_mark
    rw [ht] at hhead
    obtain rfl := Option.some.inj hhead
    cases hm
  · obtain ⟨name, -, -, rfl⟩ := h.blockId w hw
    cases hhead

/-- The words begin with a bracket only if a text in front does. -/
theorem bracket_text (h : t.Sound) (hbracket : (join [' '] t.words).head? = some ']') :
    t.front = [] ∧ t.text.head? = some ']' := by
  cases hwords : t.words with
  | nil =>
      rw [hwords] at hbracket
      cases hbracket
  | cons w ws =>
      have hw : w.head? = some ']' := by
        rw [hwords, Text.join_cons] at hbracket
        cases w with
        | nil => cases ws <;> cases hbracket
        | cons c w => exact hbracket
      have htext := h.eq_text_of_bracket (hwords ▸ List.mem_cons_self) hw
      refine ⟨?_, htext ▸ hw⟩
      by_contra hne
      obtain ⟨cs, hcs, -⟩ := (h.closed_front (mem_front_of_words_eq_cons hne hwords)).exists_ends
      rw [hcs] at hw
      cases hw

end Task.Sound

end TaskLine
