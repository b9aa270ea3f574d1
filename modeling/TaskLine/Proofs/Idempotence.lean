import TaskLine.Proofs.ReadBack
import TaskLine.Proofs.Tidying

/-!
# Formatting twice

A line is *laid out* (`LaidOut`) when it is the words of a legible task behind
its head, without wide gaps and with the other wrappers in order. Such a line
is left alone (`LaidOut.formatLine_eq`). What formatting makes of a task line
is laid out if the line is *settled* (`Frame.Settled`): if no part of it turns
into something else once it stands in its place (`Frame.Settled.laidOut`). So
on settled lines formatting is idempotent (`formatLine_formatLine`).

It is not on all lines: when an arrow between a mark and a date goes, the two
become a token that was not there before.
-/

namespace TaskLine

open Text (Blank Firm Tidy row join collapse)
open Markup (Template Closed Passes)
open DateToken (Shape Quiet InOrder)
open Line (EndsInReference Leads guardTag)

/-! ## Lines that are laid out -/

/-- The words of a legible task behind its head, a space between each two and nothing wide. -/
structure LaidOut (line : Text) (t : Task) (ts : List (Shape × Text)) : Prop where
  legible : t.Legible ts
  tidy : ∀ w ∈ t.words, Tidy w
  words : t.words ≠ []
  sorted : t.slots.sorted = t.slots
  head : ∃ k, t.head = k ++ [' '] ∧ Tidy k ∧ ∀ c, k.getLast? = some c → Text.isSpace c = false
  /-- White space ends the line only behind a text or a tag. -/
  line : ∃ g, Blank g ∧ Tidy g ∧ line = t.head ++ (join [' '] t.words ++ g) ∧
    guardTag line = line ∧ (t.back ≠ [] → line = guardTag (t.head ++ join [' '] t.words))

theorem Task.Legible.endsInTag_of_front {t : Task} {ts : List (Shape × Text)} (h : t.Legible ts)
    (hne : t.words ≠ []) (htext : t.text = []) (hback : t.back = []) (s : Text) :
    Line.endsInTag (s ++ join [' '] t.words) = true := by
  have hwords : t.words = t.front := by
    rw [Task.words, htext, hback]
    simp [present, Option.filter]
  obtain ⟨ws, w, hws⟩ := t.front.eq_nil_or_concat.resolve_left (hwords ▸ hne)
  obtain ⟨_, -, ds, rfl⟩ := (h.closed_front (w := w) (by rw [hws]; simp)).exists_ends
  have hjoin : ∃ s', join [' '] t.words = s' ++ ['>'] := by
    rw [hwords, hws, List.concat_eq_append]
    cases ws with
    | nil => exact ⟨ds, by rw [List.nil_append, Text.join_cons]; simp⟩
    | cons v ws => exact ⟨v ++ row ws ++ ' ' :: ds, by rw [List.cons_append, Text.join_cons]; simp⟩
  obtain ⟨s', hs'⟩ := hjoin
  rw [hs', ← List.append_assoc, Line.endsInTag, List.reverse_append]
  rfl

/-- A line that is laid out is left alone. -/
theorem LaidOut.formatLine_eq {line : Text} {t : Task} {ts : List (Shape × Text)}
    (h : LaidOut line t ts) : formatLine {} line = line := by
  obtain ⟨k, hhead, hk, hlast⟩ := h.head
  obtain ⟨g, hg, hgtidy, hline, hguard, hback⟩ := h.line
  obtain ⟨a, b, ha, hb, htail, hread⟩ := h.legible.read?_eq hg fun hnil => absurd hnil h.words
  have hablank : Blank a := fun c hc => by
    rw [ha c hc]
    decide
  have hbblank : Blank b := fun c hc => by
    rcases hb c hc with rfl | hc
    · decide
    · exact hg c hc
  -- the text has come back with white space around it
  have htidy : Tidy t.text := by
    by_cases hnil : t.text = []
    · rw [hnil]
      exact .nil
    · exact h.tidy _ (by simp [Task.words, present_of_ne_nil hnil])
  obtain ⟨a', b', ha', hb', hb'', htext⟩ :=
    Text.exists_collapse_append_append h.legible.text htidy hablank hbblank
  rw [htext, ← hline] at hread
  obtain ⟨tail, htb, hnone, hlasttail, hwords⟩ := t.collapse_row_words ha' hb' t.head
  have hspace : Blank [' '] := Blank.singleton (by decide)
  have hlay : collapse (k ++ [' '] ++ (row t.words ++ tail)) =
      collapse k ++ ' ' :: join [' '] t.words ++ collapse tail :=
    h.legible.collapse_head_words h.tidy h.words hlast hspace
  have hformat : formatLine {} line = guardTag (t.head ++ join [' '] t.words ++ collapse tail) := by
    rw [formatLine_of_some hread, Pieces.write_eq, Task.row_fragments]
    · refine congrArg guardTag ?_
      have hsorted : ({ t with text := a' ++ t.text ++ b', slots := t.slots.sorted } : Task) =
          { t with text := a' ++ t.text ++ b' } := by rw [h.sorted]
      refine (congrArg (fun u : Task => collapse (t.head ++ row u.words)) hsorted).trans ?_
      refine hwords.trans ?_
      conv_lhs => rw [hhead]
      rw [hlay, Text.collapse_eq_self hk, hhead]
      simp
    · intro x hx
      exact (h.legible.templates x hx).closed.firm.ne_nil
  rw [hformat]
  have htrim := h.legible.trimRight_words h.words hhead
  rw [← List.append_assoc] at hline
  by_cases hb0 : t.back = []
  · by_cases ht0 : t.text = []
    · have htag := h.legible.endsInTag_of_front h.words ht0 hb0 t.head
      rw [Line.guardTag_append_blank htrim htag htb.collapse,
        ← Line.guardTag_append_blank htrim htag hg, ← hline, hguard]
    · rw [hlasttail ht0 hb0, hb'' ht0, htail ht0 hb0, Text.collapse_collapse,
        Text.collapse_eq_self hgtidy, ← hline, hguard]
  · rw [hnone hb0, show collapse [] = [] from rfl, List.append_nil, ← hback hb0]

/-- A head without anything behind it is left alone. -/
theorem formatLine_of_leads {line : Text} (hlead : Leads line []) (htidy : Tidy line) :
    formatLine {} line = line := by
  have hread := Frame.read?_of_leads hlead
  have htext : Task.plainText (Markup.removeWrappers []) = [] := by decide
  have hdates : DateToken.ordered (Markup.removeWrappers []) = [] := by decide
  have hslots : Slots.ofWrappers (Markup.wrappers []) = {} := rfl
  have htask : Frame.task ⟨line, [], [], none⟩ = { head := line, text := [] } := by
    rw [Frame.task, htext, hdates, hslots]
  have hline : formatLine {} line = guardTag (collapse (line ++ [])) := by
    rw [formatLine_eq hread, htask]
    rfl
  rw [hline, List.append_nil, Text.collapse_eq_self htidy, guardTag, hlead.endsInTag]
  rfl

/-! ## Lines that settle -/

/-- The date tokens of a line in order, each with its shape, their gaps narrowed. -/
def Frame.tokens (frame : Frame) : List (Shape × Text) :=
  (sortBy DateToken.atMostRank (DateToken.tagged (Markup.removeWrappers frame.content))).map
    fun x => (x.1, collapse x.2)

/-- No part of the line turns into something else when it is written in its place. -/
structure Frame.Settled (frame : Frame) : Prop where
  /-- The wrappers that are written are closed and have no wide gaps. -/
  whole : frame.task.slots.Whole
  /-- A text in front does not close a box that holds white space only. -/
  box : frame.task.front = [] → frame.task.tidied.text.head? = some ']' →
    Leads frame.head frame.task.tidied.text
  /-- No wrapper begins outside of the wrappers. -/
  clear : frame.task.tidied.Clear
  /-- No token begins in the text. -/
  quiet : Quiet frame.task.tidied.text
  /-- A text at the end does not end in a block reference. -/
  reference : frame.task.back = [] → ¬EndsInReference frame.task.tidied.text
  /-- The date tokens are spelled: nothing is hidden in them that could be taken for markup. -/
  spelled : ∀ x ∈ DateToken.tagged (Markup.removeWrappers frame.content), x.1.Spelled x.2

namespace Frame

variable {frame : Frame} {line : Text}

theorem dates_eq_tokens : frame.task.tidied.dates = frame.tokens.map Prod.snd := by
  rw [Task.dates_tidied, dates_task, DateToken.ordered_eq_map, tokens, List.map_map, List.map_map]
  rfl

namespace Settled

variable (h : frame.Settled)
include h

theorem spelled_tokens {x : Shape × Text} (hx : x ∈ frame.tokens) : x.1.Spelled x.2 := by
  obtain ⟨y, hy, rfl⟩ := List.mem_map.mp hx
  exact (h.spelled y (mem_sortBy.mp hy)).collapse

theorem inOrder_tokens : InOrder frame.tokens := by
  have hrank : ∀ x ∈ sortBy DateToken.atMostRank
      (DateToken.tagged (Markup.removeWrappers frame.content)),
      x.1.rank (collapse x.2) = x.1.rank x.2 :=
    fun x hx => DateToken.Shape.rank_collapse (h.spelled x (mem_sortBy.mp hx))
  refine List.pairwise_map.mpr (List.Pairwise.imp_of_mem ?_
    (DateToken.inOrder_sortBy_tagged (Markup.removeWrappers frame.content)))
  intro a b ha hb hab
  simpa only [DateToken.atMostRank, hrank a ha, hrank b hb] using hab

/-- The head of the line is a head of what is written behind it. -/
theorem leads (hread : Frame.read? line = some frame) :
    Leads frame.head (join [' '] frame.task.tidied.words) := by
  obtain ⟨-, hlead, -⟩ := Line.splitHead?_eq_some_iff.mp (Frame.read?_eq_some_iff.mp hread).1
  by_cases hbracket : (join [' '] frame.task.tidied.words).head? = some ']'
  · obtain ⟨hfront, htext⟩ := (sound_tidied hread h.whole).bracket_text hbracket
    exact (h.box hfront htext).congr fun _ => htext
  · exact hlead.congr fun hh => absurd hh hbracket

/-- What is written of a settled line is legible. -/
theorem legible (hread : Frame.read? line = some frame) :
    frame.task.tidied.Legible frame.tokens where
  toSound := sound_tidied hread h.whole
  head := leads_tidied (h.leads hread)
  clear := h.clear
  quiet := h.quiet
  noArrow := noArrow_tidied
  reference hback := h.reference (Task.back_of_back_tidied hback)
  dates := dates_eq_tokens
  spelled _ hx := h.spelled_tokens hx
  inOrder := h.inOrder_tokens

/-- A settled line is written in a form that is laid out. -/
theorem laidOut (hread : Frame.read? line = some frame) (hwords : frame.task.tidied.words ≠ []) :
    LaidOut (formatLine {} line) frame.task.tidied frame.tokens where
  legible := h.legible hread
  tidy _ hw := tidy_words hread h.whole hw
  words := hwords
  sorted := Task.sorted_tidied
  head := by
    obtain ⟨k, hk, -⟩ := (h.leads hread).exists_trimRight
    refine ⟨_, head_tidied, Text.tidy_collapse _, fun c hc => ?_⟩
    rw [hk, Text.collapse_append_cons (by decide), show collapse [] = [] from rfl,
      List.getLast?_concat] at hc
    obtain rfl := Option.some.inj hc
    decide
  line := by
    obtain ⟨g, hg, htidy, hline, hguard, hback⟩ := exists_formatLine_eq hread h.whole hwords
    exact ⟨g, hg, htidy, hline, hguard, hback⟩

end Settled

/-- A line settles if its text holds nothing of markup, tokens or references. -/
theorem settled_of_plain (hwhole : frame.task.slots.Whole)
    (hplain : ∀ c ∈ frame.task.tidied.text, c ≠ '<' ∧ c ≠ '^' ∧ DateToken.isMark c = false)
    (hbracket : frame.task.tidied.text.head? ≠ some ']')
    (hspelled : ∀ x ∈ DateToken.tagged (Markup.removeWrappers frame.content), x.1.Spelled x.2) :
    frame.Settled where
  whole := hwhole
  box _ hhead := absurd hhead hbracket
  clear := by
    refine .inl ⟨.of_not_mem fun hmem => (hplain _ hmem).1 rfl, ?_⟩
    rw [dates_eq_tokens]
    refine DateToken.wrappers_join_spelled fun x hx => ?_
    obtain ⟨y, hy, rfl⟩ := List.mem_map.mp hx
    exact (hspelled y (mem_sortBy.mp hy)).collapse
  quiet := DateToken.Unmarked.quiet fun c hc => (hplain c hc).2.2
  reference _ href := (hplain _ (Line.endsInReference_caret href)).2.1 rfl
  spelled := hspelled

end Frame

/-- Formatting a settled line a second time changes nothing. -/
theorem formatLine_formatLine {line : Text}
    (h : ∀ frame, Frame.read? line = some frame → frame.Settled) :
    formatLine {} (formatLine {} line) = formatLine {} line := by
  cases hread : Frame.read? line with
  | none =>
      have hnone : formatLine {} line = line :=
        formatLine_of_none (by rw [Task.read?, hread]; rfl)
      rw [hnone, hnone]
  | some frame =>
      by_cases hwords : frame.task.tidied.words = []
      · -- there is nothing behind the head but white space
        have hlead := (h frame hread).leads hread
        rw [hwords] at hlead
        obtain ⟨hlead, htidy⟩ := Frame.leads_formatLine hread hlead hwords
        exact formatLine_of_leads hlead htidy
      · exact ((h frame hread).laidOut hread hwords).formatLine_eq

/-- A line with wide gaps, a token in front of the text, and a wrapper inside it. -/
def scatteredLine : Text :=
  "*  [x] ✅  2024-01-02 a <span data-template-key=\"k\">b</span>  c ^d".toList

theorem settled_scatteredLine {frame : Frame} (h : Frame.read? scatteredLine = some frame) :
    frame.Settled := by
  obtain rfl : frame = ⟨"*  [x] ".toList, scatteredLine.drop 7,
      (scatteredLine.drop 7).dropLast.dropLast, some "^d".toList⟩ := by
    refine Option.some.inj (h.symm.trans ?_)
    decide +kernel
  have htagged : DateToken.tagged (Markup.removeWrappers (scatteredLine.drop 7).dropLast.dropLast) =
      [(.dated, "✅  2024-01-02".toList)] := by
    decide +kernel
  refine Frame.settled_of_plain (by decide +kernel) (by decide +kernel) (by decide +kernel) ?_
  rw [htagged]
  simp only [List.forall_mem_singleton]
  exact ⟨'✅', _, rfl, ⟨[' ', ' '], _, by decide, by decide,
    ⟨"2024".toList, "01".toList, "02".toList, ⟨rfl, by decide⟩, ⟨rfl, by decide⟩,
      ⟨rfl, by decide⟩, rfl⟩, rfl⟩, rfl⟩

theorem formatLine_formatLine_scatteredLine :
    formatLine {} scatteredLine ≠ scatteredLine ∧
      formatLine {} (formatLine {} scatteredLine) = formatLine {} scatteredLine :=
  ⟨by decide +kernel, formatLine_formatLine fun _ h => settled_scatteredLine h⟩

/-- An arrow between a mark and a date. -/
def arrowedDate : Text := "- [ ] 📅 → 2024-01-01 foo".toList

/-- When the arrow goes, a token is there that was not there before, and it moves. -/
theorem arrowedDate_moves :
    ¬ ∀ line : Text, formatLine {} (formatLine {} line) = formatLine {} line := by
  intro h
  have hmoved := h arrowedDate
  revert hmoved
  decide

end TaskLine
