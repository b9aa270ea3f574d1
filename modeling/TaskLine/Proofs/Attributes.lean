import TaskLine.Markup.Build
import TaskLine.Markup.Template
import TaskLine.Proofs.Breaks
import TaskLine.Proofs.Frame
import TaskLine.Proofs.Scanning

/-!
# Attributes that were written

A tag whose attributes are plain names with values in double quotes is read up to its own `>`
(`wholeTag_spanTag`). Data attributes are written with their values escaped: nothing in an escaped
value ends the value or the tag (`inert_of_mem_escape`), so they are such attributes
(`plainAttribute_inFull`), and the data attributes of the tag are those that were written
(`exists_dataAttributesFrom_eq`). White space is not escaped: a value is as tidy as its escaped form
and has the same line breaks.
-/

namespace TaskLine.Text

/-- No white space stands beside other white space, and no line is broken. -/
structure Neat (s : Text) : Prop where
  tidy : Tidy s
  unbroken : Unbroken s

instance (s : Text) : Decidable s.Neat :=
  decidable_of_iff (s.Tidy ∧ s.Unbroken) ⟨fun h => ⟨h.1, h.2⟩, fun h => ⟨h.1, h.2⟩⟩

variable {s t : Text}

theorem neat_append_iff (h : ∀ c, s.getLast? = some c → isSpace c = false) :
    Neat (s ++ t) ↔ Neat s ∧ Neat t := by
  have hbroken : Unbroken (s ++ t) ↔ Unbroken s ∧ Unbroken t := List.forall_mem_append
  constructor
  · rintro ⟨htidy, hunbroken⟩
    obtain ⟨hs, ht⟩ := (tidy_append_iff h).mp htidy
    obtain ⟨hs', ht'⟩ := hbroken.mp hunbroken
    exact ⟨⟨hs, hs'⟩, ⟨ht, ht'⟩⟩
  · rintro ⟨⟨hs, hs'⟩, ⟨ht, ht'⟩⟩
    exact ⟨(tidy_append_iff h).mpr ⟨hs, ht⟩, hbroken.mpr ⟨hs', ht'⟩⟩

theorem neat_of_not_isSpace (h : ∀ c ∈ s, isSpace c = false) : Neat s where
  tidy := tidy_iff.mpr (collapse_of_not_space h)
  unbroken c hc := by
    constructor <;> rintro rfl <;> cases h _ hc

/-- What has no white space in it may stand behind anything. -/
theorem neat_append_iff_of_not_isSpace (h : ∀ c ∈ t, isSpace c = false) :
    Neat (s ++ t) ↔ Neat s := by
  refine ⟨fun hst => ⟨hst.tidy.left_of_append,
      fun c hc => hst.unbroken c (List.mem_append_left t hc)⟩,
    fun hs => ⟨?_, List.forall_mem_append.mpr ⟨hs.unbroken, (neat_of_not_isSpace h).unbroken⟩⟩⟩
  rw [Tidy, List.isChain_append]
  exact ⟨hs.tidy, (neat_of_not_isSpace h).tidy, fun _ _ b hb _ => h b (List.mem_of_mem_head? hb)⟩

/-- Behind a space there is no other white space. -/
theorem neat_space_cons_iff (h : ∀ c, s.head? = some c → isSpace c = false) :
    Neat (' ' :: s) ↔ Neat s := by
  have htidy : Tidy (' ' :: s) ↔ Tidy s := by
    rw [Tidy, List.isChain_cons]
    exact and_iff_right fun c hc _ => h c hc
  have hbroken : Unbroken (' ' :: s) ↔ Unbroken s :=
    List.forall_mem_cons.trans (and_iff_right (by decide))
  exact ⟨fun h => ⟨htidy.mp h.tidy, hbroken.mp h.unbroken⟩,
    fun h => ⟨htidy.mpr h.tidy, hbroken.mpr h.unbroken⟩⟩

end TaskLine.Text

namespace TaskLine.Markup

open Text (Tidy Unbroken Neat isSpace)

variable {s u v name : Text} {c : Char}

/-! ## Escaping -/

/-- A character that neither begins nor ends a tag or a quoted value. -/
def Inert (c : Char) : Prop := c ≠ '<' ∧ c ≠ '>' ∧ c ≠ '"' ∧ c ≠ '\''

instance (c : Char) : Decidable (Inert c) := inferInstanceAs (Decidable (_ ∧ _))

theorem escapeChar_eq_or (c : Char) :
    (escapeChar c = [c] ∧ Inert c) ∨
      (isSpace c = false ∧ escapeChar c ≠ [] ∧
        ∀ d ∈ escapeChar c, isSpace d = false ∧ Inert d) := by
  unfold escapeChar
  split
  · rename_i h
    subst h
    exact .inr (by decide)
  split
  · rename_i h
    subst h
    exact .inr (by decide)
  split
  · rename_i h
    subst h
    exact .inr (by decide)
  split
  · rename_i h
    subst h
    exact .inr (by decide)
  split
  · rename_i h
    subst h
    exact .inr (by decide)
  · rename_i hlt hgt hdouble hsingle
    exact .inl ⟨rfl, hlt, hgt, hdouble, hsingle⟩

theorem inert_of_mem_escape (h : c ∈ escape s) : Inert c := by
  obtain ⟨d, -, hc⟩ := List.mem_flatMap.mp h
  rcases escapeChar_eq_or d with ⟨heq, hd⟩ | ⟨-, -, hinert⟩
  · rw [heq, List.mem_singleton] at hc
    exact hc ▸ hd
  · exact (hinert c hc).2

theorem mem_escape_of_isSpace (hc : isSpace c = true) : c ∈ escape s ↔ c ∈ s := by
  rw [escape, List.mem_flatMap]
  constructor
  · rintro ⟨d, hd, hmem⟩
    rcases escapeChar_eq_or d with ⟨heq, -⟩ | ⟨-, -, hinert⟩
    · rw [heq, List.mem_singleton] at hmem
      exact hmem ▸ hd
    · rw [(hinert c hmem).1] at hc
      cases hc
  · intro hmem
    refine ⟨c, hmem, ?_⟩
    rcases escapeChar_eq_or c with ⟨heq, -⟩ | ⟨hspace, -, -⟩
    · rw [heq]
      exact List.mem_singleton_self c
    · rw [hspace] at hc
      cases hc

theorem unbroken_escape : Unbroken (escape s) ↔ Unbroken s := by
  have hbreaks : ∀ t : Text, Unbroken t ↔ '\n' ∉ t ∧ '\r' ∉ t := fun t =>
    ⟨fun h => ⟨fun hmem => (h _ hmem).1 rfl, fun hmem => (h _ hmem).2 rfl⟩,
      fun h c hc => ⟨fun heq => h.1 (heq ▸ hc), fun heq => h.2 (heq ▸ hc)⟩⟩
  rw [hbreaks, hbreaks, mem_escape_of_isSpace (by decide), mem_escape_of_isSpace (by decide)]

theorem isSpace_head_escape (s : Text) :
    (∃ c, (escape s).head? = some c ∧ isSpace c = true) ↔
      ∃ c, s.head? = some c ∧ isSpace c = true := by
  cases s with
  | nil => exact Iff.rfl
  | cons d s =>
      rw [escape, List.flatMap_cons]
      rcases escapeChar_eq_or d with ⟨heq, -⟩ | ⟨hspace, hne, hinert⟩
      · rw [heq]
        exact Iff.rfl
      · obtain ⟨e, es, hes⟩ := List.exists_cons_of_ne_nil hne
        have he := (hinert e (hes ▸ List.mem_cons_self)).1
        rw [hes]
        simp [he, hspace]

theorem tidy_escape : Tidy (escape s) ↔ Tidy s := by
  induction s with
  | nil => exact Iff.rfl
  | cons c s ih =>
      have hgap : ∀ t : Text, (∀ d ∈ t.head?, isSpace c = true → isSpace d = false) ↔
          (isSpace c = true → ¬∃ d, t.head? = some d ∧ isSpace d = true) := fun t =>
        ⟨fun h hc ⟨d, hd, hspace⟩ => Bool.eq_false_iff.mp (h d hd hc) hspace,
          fun h d hd hc => Bool.eq_false_iff.mpr fun hspace => h hc ⟨d, hd, hspace⟩⟩
      rw [escape, List.flatMap_cons, ← escape]
      rcases escapeChar_eq_or c with ⟨heq, -⟩ | ⟨hspace, -, hinert⟩
      · rw [heq, List.singleton_append, Tidy, Tidy, List.isChain_cons, List.isChain_cons, hgap,
          hgap, isSpace_head_escape]
        exact and_congr_right fun _ => ih
      · have hlast : ∀ d, (escapeChar c).getLast? = some d → isSpace d = false := fun d hd =>
          (hinert d (List.mem_of_getLast? hd)).1
        have htidy : Tidy (escapeChar c) := Text.tidy_iff.mpr <|
          Text.collapse_of_not_space fun d hd => (hinert d hd).1
        rw [Text.tidy_append_iff hlast, ← List.singleton_append,
          Text.tidy_append_iff (s := [c]) (by simpa using hspace), ih]
        exact ⟨fun h => ⟨.singleton c, h.2⟩, fun h => ⟨htidy, h.2⟩⟩

theorem neat_escape : Neat (escape s) ↔ Neat s :=
  ⟨fun h => ⟨tidy_escape.mp h.tidy, unbroken_escape.mp h.unbroken⟩,
    fun h => ⟨tidy_escape.mpr h.tidy, unbroken_escape.mpr h.unbroken⟩⟩

/-! ## Tags -/

theorem tagLength_inert (h : ∀ c ∈ u, Inert c) (v : Text) :
    tagLength .bare (u ++ v) = u.length + tagLength .bare v := by
  induction u with
  | nil => exact (Nat.zero_add _).symm
  | cons c u ih =>
      obtain ⟨⟨-, hgt, hdouble, hsingle⟩, h⟩ := List.forall_mem_cons.mp h
      have hnext : Quoting.bare.next c = .bare := by
        unfold Quoting.next
        split <;> first | rfl | contradiction
      rw [List.cons_append, tagLength, if_neg (by simpa using hgt), hnext, ih h, List.length_cons]
      omega

theorem tagLength_quoted (h : '"' ∉ u) (v : Text) :
    tagLength .double (u ++ '"' :: v) = u.length + 1 + tagLength .bare v := by
  induction u with
  | nil =>
      rw [List.nil_append, tagLength, if_neg (by decide), List.length_nil]
      exact Nat.add_comm _ 1
  | cons c u ih =>
      obtain ⟨hc, h⟩ := List.ne_and_not_mem_of_not_mem_cons h
      have hnext : Quoting.double.next c = .double := by
        unfold Quoting.next
        split <;> first | rfl | contradiction
      rw [List.cons_append, tagLength, if_neg (by simp), hnext, ih h, List.length_cons]
      omega

/-! ## Tags with attributes -/

/-- Attributes as they stand in a tag: a space, a name, and a value in double quotes. -/
def written (attrs : List (Text × Text)) : Text :=
  attrs.flatMap fun a => ' ' :: (a.1 ++ '=' :: '"' :: (a.2 ++ ['"']))

/-- The opening tag of a span. -/
def spanTag (attrs : List (Text × Text)) : Text := "<span".toList ++ (written attrs ++ ['>'])

/-- Letters, digits and hyphens. -/
def PlainName (name : Text) : Prop := ∀ c ∈ name, Text.isWordChar c = true ∨ c = '-'

instance (name : Text) : Decidable (PlainName name) :=
  inferInstanceAs (Decidable (∀ c ∈ name, Text.isWordChar c = true ∨ c = '-'))

/-- The name is a plain one, and the value ends at its closing quote. -/
structure PlainAttribute (a : Text × Text) : Prop where
  name : PlainName a.1
  value : '"' ∉ a.2

instance (a : Text × Text) : Decidable (PlainAttribute a) :=
  decidable_of_iff (PlainName a.1 ∧ '"' ∉ a.2) ⟨fun h => ⟨h.1, h.2⟩, fun h => ⟨h.1, h.2⟩⟩

variable {attrs : List (Text × Text)} {a : Text × Text}

theorem written_cons (a : Text × Text) (attrs : List (Text × Text)) (t : Text) :
    written (a :: attrs) ++ t =
      ' ' :: (a.1 ++ '=' :: '"' :: (a.2 ++ '"' :: (written attrs ++ t))) := by
  simp [written]

theorem PlainName.inert (h : PlainName name) : ∀ c ∈ name, Inert c := by
  intro c hc
  refine ⟨?_, ?_, ?_, ?_⟩ <;>
  · rintro rfl
    exact absurd (h _ hc) (by decide +kernel)

theorem PlainName.equals_notMem (h : PlainName name) : '=' ∉ name :=
  fun hmem => absurd (h _ hmem) (by decide +kernel)

theorem PlainName.quote_notMem (h : PlainName name) : '"' ∉ name :=
  fun hmem => (h.inert _ hmem).2.2.1 rfl

theorem tagLength_written (h : ∀ a ∈ attrs, PlainAttribute a) (t : Text) :
    tagLength .bare (written attrs ++ t) = (written attrs).length + tagLength .bare t := by
  induction attrs with
  | nil => exact (Nat.zero_add _).symm
  | cons a attrs ih =>
      obtain ⟨ha, h⟩ := List.forall_mem_cons.mp h
      have hinert : ∀ c ∈ ' ' :: (a.1 ++ ['=']), Inert c :=
        List.forall_mem_cons.mpr ⟨by decide, List.forall_mem_append.mpr
          ⟨ha.name.inert, by decide⟩⟩
      have hsplit : ' ' :: (a.1 ++ '=' :: '"' :: (a.2 ++ '"' :: (written attrs ++ t))) =
          (' ' :: (a.1 ++ ['='])) ++ '"' :: (a.2 ++ '"' :: (written attrs ++ t)) := by simp
      have hlength := congrArg List.length (written_cons a attrs [])
      rw [List.append_nil, List.append_nil] at hlength
      rw [written_cons, hsplit, tagLength_inert hinert, tagLength, if_neg (by decide),
        show Quoting.bare.next '"' = .double from rfl, tagLength_quoted ha.value, ih h, hlength]
      simp only [List.length_cons, List.length_append, List.length_nil]
      omega

theorem wholeTag_spanTag (h : ∀ a ∈ attrs, PlainAttribute a) : WholeTag (spanTag attrs) := by
  refine ⟨⟨_, rfl⟩, fun t => ?_⟩
  have hopen : spanTag attrs ++ t = '<' :: ("span".toList ++ (written attrs ++ '>' :: t)) := by
    simp only [spanTag, List.append_assoc, List.singleton_append]
    rfl
  have hlength : (spanTag attrs).length =
      "span".toList.length + ((written attrs).length + 1) + 1 := by
    rw [spanTag, List.length_append, List.length_append]
    exact Nat.add_right_comm 4 1 _
  rw [hopen, tagLength, if_neg (by decide), show Quoting.bare.next '<' = .bare from rfl,
    tagLength_inert (by decide), tagLength_written h, tagLength, if_pos (by decide), hlength]

theorem openingTag_append {t : Text} (ht : WholeTag t) (s : Text) :
    openingTag (t ++ s) = t := by
  have hends := ht.ends s
  obtain ⟨cs, rfl⟩ := ht.begins
  rw [openingTag, hends, List.take_left]
  exact if_pos rfl

/-! ## Elements -/

theorem bodyLength_skip (d : Nat) (u v : Text) :
    bodyLength d u.length (u ++ v) = u.length + bodyLength d 0 v := by
  induction u with
  | nil => exact (Nat.zero_add _).symm
  | cons c u ih =>
      rw [List.cons_append, List.length_cons, bodyLength, ih]
      omega

theorem bodyLength_text (d : Nat) (h : '<' ∉ u) (v : Text) :
    bodyLength (d + 1) 0 (u ++ v) = u.length + bodyLength (d + 1) 0 v := by
  induction u with
  | nil => exact (Nat.zero_add _).symm
  | cons c u ih =>
      obtain ⟨hc, h⟩ := List.ne_and_not_mem_of_not_mem_cons h
      rw [List.cons_append, List.length_cons, bodyLength, if_neg (Ne.symm hc), ih h]
      omega

/-- A tag inside of a wrapper is passed over and counts for the depth. -/
theorem bodyLength_tag (d : Nat) {t : Text} (ht : WholeTag t) (v : Text) :
    bodyLength (d + 1) 0 (t ++ v) = t.length + bodyLength (depthAfter (d + 1) t) 0 v := by
  have hends := ht.ends v
  have hdepth : depthAfter (d + 1) (t ++ v) = depthAfter (d + 1) t := by
    rw [depthAfter, depthAfter, beginsSpan_append ht.gt_mem, beginsSpanEnd_append ht.gt_mem]
  obtain ⟨cs, rfl⟩ := ht.begins
  rw [List.cons_append] at hends hdepth ⊢
  rw [bodyLength, if_pos rfl, hends, hdepth, List.length_cons, Nat.add_sub_cancel, bodyLength_skip]
  omega

/-- An element whose opening tag opens a wrapper is one. -/
theorem closed_append {t b : Text} (ht : WholeTag t) (hopens : opensWrapper t = true)
    (hb : ∀ v, bodyLength 1 0 (b ++ v) = b.length) : Closed (t ++ b) := by
  have hends := ht.ends (b ++ ['x'])
  have hspan := beginsSpan_append ht.gt_mem (b ++ ['x'])
  rw [opensWrapper, Bool.and_eq_true] at hopens
  obtain ⟨cs, rfl⟩ := ht.begins
  have hread : readWrapper '<' (cs ++ (b ++ ['x'])) = (true, (cs ++ b).length) := by
    simp only [readWrapper, if_true, hends, hspan, hopens.1, ← List.cons_append, List.take_left,
      List.drop_left, hopens.2, hb, Bool.and_self]
    rw [List.length_cons, List.length_append, Nat.add_sub_cancel]
  rw [Closed, List.append_assoc, List.cons_append, wrappers_cons, hread, if_pos rfl,
    ← List.append_assoc, List.take_left, List.drop_left]
  rfl

/-! ## Written attributes -/

/-- A name of a data attribute, without `data-`. -/
structure DataName (name : Text) : Prop where
  ne_nil : name ≠ []
  forall_mem : ∀ c ∈ name, isDataNameChar c = true

instance (name : Text) : Decidable (DataName name) :=
  decidable_of_iff (name ≠ [] ∧ ∀ c ∈ name, isDataNameChar c = true)
    ⟨fun h => ⟨h.1, h.2⟩, fun h => ⟨h.1, h.2⟩⟩

/-- Data attributes as they are written. -/
def attributes (attrs : List (Text × Text)) : Text :=
  attrs.flatMap fun a => attributeText ("data-".toList ++ a.1) a.2

theorem inert_of_isDataNameChar (h : isDataNameChar c = true) : Inert c := by
  refine ⟨?_, ?_, ?_, ?_⟩ <;> rintro rfl <;> revert h <;> decide

theorem attributeText_eq (name v u : Text) :
    attributeText ("data-".toList ++ name) v ++ u =
      (' ' :: ("data-".toList ++ (name ++ ['=']))) ++ '"' :: (escape v ++ '"' :: u) := by
  simp [attributeText]

theorem double_notMem_escape (v : Text) : '"' ∉ escape v :=
  fun h => (inert_of_mem_escape h).2.2.1 rfl

theorem DataName.inert (hname : DataName name) :
    ∀ c ∈ ' ' :: ("data-".toList ++ (name ++ ['='])), Inert c := by
  refine List.forall_mem_cons.mpr ⟨by decide, List.forall_mem_append.mpr ⟨by decide, ?_⟩⟩
  refine List.forall_mem_append.mpr ⟨fun c hc => ?_, by decide⟩
  exact inert_of_isDataNameChar (hname.forall_mem c hc)

theorem isSpace_of_isDataNameChar (h : isDataNameChar c = true) : isSpace c = false := by
  have hsplit : isDataNameChar c =
      (Line.isBlockChar c || [0x130, 0x131, 0x17F, 0x212A].contains c.toNat) := rfl
  rw [hsplit, Bool.or_eq_true] at h
  rcases h with h | h
  · exact Line.isSpace_of_isBlockChar h
  · simp only [List.contains_iff_mem, List.mem_cons, List.not_mem_nil, or_false] at h
    unfold isSpace
    rcases h with h | h | h | h <;> rw [h] <;> decide

theorem neat_attribute_append (hname : DataName name) (v u : Text) :
    Neat (attributeText ("data-".toList ++ name) v ++ u) ↔ Neat v ∧ Neat u := by
  have hsplit : attributeText ("data-".toList ++ name) v ++ u =
      (' ' :: ("data-".toList ++ (name ++ "=\"".toList))) ++ ((escape v ++ ['"']) ++ u) := by
    simp [attributeText]
  have hopen : Neat (' ' :: ("data-".toList ++ (name ++ "=\"".toList))) := by
    have hsolid : ∀ c ∈ "data-".toList ++ (name ++ "=\"".toList), isSpace c = false :=
      List.forall_mem_append.mpr ⟨by decide, List.forall_mem_append.mpr
        ⟨fun c hc => isSpace_of_isDataNameChar (hname.forall_mem c hc), by decide⟩⟩
    exact (Text.neat_space_cons_iff fun c hc => hsolid c (List.mem_of_mem_head? hc)).mpr
      (Text.neat_of_not_isSpace hsolid)
  rw [hsplit, Text.neat_append_iff, and_iff_right hopen, Text.neat_append_iff,
    Text.neat_append_iff_of_not_isSpace (by decide), neat_escape]
  · intro c hc
    rw [List.getLast?_concat] at hc
    obtain rfl := Option.some.inj hc
    decide
  · intro c hc
    rw [show "=\"".toList = ['='] ++ ['"'] from rfl] at hc
    rw [← List.append_assoc, ← List.append_assoc, ← List.cons_append, List.getLast?_concat] at hc
    obtain rfl := Option.some.inj hc
    decide

/-- Written attributes are as neat as their values. -/
theorem neat_attributes_append {attrs : List (Text × Text)} (h : ∀ a ∈ attrs, DataName a.1)
    (u : Text) : Neat (attributes attrs ++ u) ↔ (∀ a ∈ attrs, Neat a.2) ∧ Neat u := by
  induction attrs with
  | nil => exact (and_iff_right nofun).symm
  | cons a attrs ih =>
      obtain ⟨ha, h⟩ := List.forall_mem_cons.mp h
      rw [attributes, List.flatMap_cons, List.append_assoc, neat_attribute_append ha, ← attributes,
        ih h, List.forall_mem_cons, and_assoc]

/-- Data attributes with their whole names, and with their values as they are written. -/
def inFull (attrs : List (Text × Text)) : List (Text × Text) :=
  attrs.map fun a => ("data-".toList ++ a.1, escape a.2)

theorem attributes_eq_written (attrs : List (Text × Text)) :
    attributes attrs = written (inFull attrs) := by
  rw [written, inFull, List.flatMap_map]
  refine List.flatMap_congr fun a _ => ?_
  rw [← List.append_nil (attributeText _ _), attributeText_eq]
  simp

theorem isWordChar_of_isDataNameChar (h : isDataNameChar c = true) :
    Text.isWordChar c = true ∨ c = '-' := by
  simp only [isDataNameChar, Bool.or_eq_true, beq_iff_eq] at h
  rcases h with ((h | h) | h) | h
  · simp [Text.isWordChar, h]
  · simp [Text.isWordChar, h]
  · exact .inr h
  · have hall : ∀ n ∈ [0x130, 0x131, 0x17F, 0x212A], Text.wordRanges.has n = true := by
      decide +kernel
    have hrange := hall c.toNat (List.contains_iff_mem.mp h)
    simp [Text.isWordChar, hrange]

theorem plainAttribute_inFull {attrs : List (Text × Text)} (h : ∀ a ∈ attrs, DataName a.1) :
    ∀ a ∈ inFull attrs, PlainAttribute a := by
  refine List.forall_mem_map.mpr fun a ha => ⟨?_, double_notMem_escape a.2⟩
  refine List.forall_mem_append.mpr ⟨by decide +kernel, fun c hc => ?_⟩
  exact isWordChar_of_isDataNameChar ((h a ha).forall_mem c hc)

/-! ## Reading them -/

/-- The characters of an attribute that was read are passed over. -/
theorem dataAttributesFrom_skip (before : Option Char) (u v : Text) (c : Char) :
    dataAttributesFrom before (u.length + 1) (u ++ c :: v) = dataAttributesFrom (some c) 0 v := by
  induction u generalizing before with
  | nil => rfl
  | cons d u ih => exact ih (some d)

theorem splitAt?_append {c : Char} (h : c ∉ u) (v : Text) :
    Text.splitAt? c (u ++ c :: v) = some (u, v) := by
  induction u with
  | nil => rw [List.nil_append, Text.splitAt?, if_pos rfl]
  | cons d u ih =>
      obtain ⟨hd, h⟩ := List.ne_and_not_mem_of_not_mem_cons h
      rw [List.cons_append, Text.splitAt?, if_neg (Ne.symm hd), ih h]
      rfl

theorem dataAttribute?_eq (hname : DataName name) (hv : '"' ∉ v) (u : Text) :
    dataAttribute? ("data-".toList ++ (name ++ ("=\"".toList ++ (v ++ '"' :: u)))) =
      some (name, v, 5 + name.length + 2 + v.length + 1) := by
  have hpre : ∀ x : Text, Text.afterFold? "data-".toList ("data-".toList ++ x) = some x :=
    fun _ => rfl
  have htake : (name ++ ("=\"".toList ++ (v ++ '"' :: u))).takeWhile isDataNameChar = name := by
    rw [List.takeWhile_append_of_pos hname.forall_mem]
    exact List.append_nil name
  have hdrop : (name ++ ("=\"".toList ++ (v ++ '"' :: u))).dropWhile isDataNameChar =
      "=\"".toList ++ (v ++ '"' :: u) := by
    rw [List.dropWhile_append_of_pos hname.forall_mem]
    rfl
  have hafter : Text.after? "=\"".toList ("=\"".toList ++ (v ++ '"' :: u)) =
      some (v ++ '"' :: u) := rfl
  rw [dataAttribute?, hpre, Option.bind_some]
  simp only [htake, hdrop, hafter, Option.bind_some, value?, splitAt?_append hv, Option.map_some]
  rw [if_neg (by simpa using hname.ne_nil)]

theorem dataAttributesFrom_attribute (before : Option Char) (hname : DataName name) (v u : Text) :
    dataAttributesFrom before 0 (attributeText ("data-".toList ++ name) v ++ u) =
      (name, escape v) :: dataAttributesFrom (some '"') 0 u := by
  have htext : attributeText ("data-".toList ++ name) v ++ u =
      ' ' :: 'd' :: (("ata-".toList ++ (name ++ ("=\"".toList ++ escape v))) ++ '"' :: u) := by
    simp [attributeText]
  have hspace : dataAttribute? (' ' :: 'd' ::
      (("ata-".toList ++ (name ++ ("=\"".toList ++ escape v))) ++ '"' :: u)) = none := rfl
  have hread : dataAttribute? ('d' ::
      (("ata-".toList ++ (name ++ ("=\"".toList ++ escape v))) ++ '"' :: u)) =
        some (name, escape v, 5 + name.length + 2 + (escape v).length + 1) := by
    rw [← dataAttribute?_eq hname (double_notMem_escape v) u]
    simp
  have hboundary : Text.boundary (some ' ') 'd' = true := by decide +kernel
  have hlength : 5 + name.length + 2 + (escape v).length + 1 - 1 =
      ("ata-".toList ++ (name ++ ("=\"".toList ++ escape v))).length + 1 := by
    rw [List.length_append, List.length_append, List.length_append,
      show "ata-".toList.length = 4 from rfl, show "=\"".toList.length = 2 from rfl]
    omega
  rw [htext, dataAttributesFrom, hspace, ite_self, dataAttributesFrom, hboundary, if_pos rfl, hread]
  show _ :: dataAttributesFrom _ _ _ = _
  rw [hlength, dataAttributesFrom_skip]

/-- The data attributes of a tag are those that were written. -/
theorem exists_dataAttributesFrom_eq {attrs : List (Text × Text)} (h : ∀ a ∈ attrs, DataName a.1)
    (before : Option Char) (u : Text) :
    ∃ before', dataAttributesFrom before 0 (attributes attrs ++ u) =
      attrs.map (fun a => (a.1, escape a.2)) ++ dataAttributesFrom before' 0 u := by
  induction attrs generalizing before with
  | nil => exact ⟨before, rfl⟩
  | cons a attrs ih =>
      obtain ⟨ha, h⟩ := List.forall_mem_cons.mp h
      obtain ⟨before', ih⟩ := ih h (some '"')
      refine ⟨before', ?_⟩
      rw [attributes, List.flatMap_cons, List.append_assoc, dataAttributesFrom_attribute before ha,
        ← attributes, ih]
      rfl

theorem Props.get?_put (name v : Text) (ps : Props) : (ps.put name v).get? name = some v := by
  induction ps with
  | nil => simp [Props.put, Props.get?]
  | cons p ps ih =>
      obtain ⟨n, w⟩ := p
      rw [Props.put]
      split
      · simp [Props.get?]
      split
      · simp [Props.get?]
      · rename_i hne _
        rw [Props.get?] at ih ⊢
        rw [List.lookup_cons, beq_false_of_ne (Ne.symm hne)]
        exact ih

theorem Props.get?_put_of_ne {name name' : Text} (h : name' ≠ name) (v : Text) (ps : Props) :
    (ps.put name v).get? name' = ps.get? name' := by
  have hskip : ∀ (w : Text) (ps : Props), Props.get? name' ((name, w) :: ps) = ps.get? name' :=
    fun w ps => by rw [Props.get?, List.lookup_cons, beq_false_of_ne h, Props.get?]
  induction ps with
  | nil => exact hskip v []
  | cons p ps ih =>
      obtain ⟨n, w⟩ := p
      rw [Props.put]
      split
      next heq => rw [heq, hskip, hskip]
      split
      · exact hskip v _
      · rw [Props.get?] at ih ⊢
        rw [List.lookup_cons, ih, Props.get?, Props.get?, List.lookup_cons]

/-- Of pairs with one name the last is found. -/
theorem Props.get?_ofPairs (pairs : List (Text × Text)) (name : Text) :
    (ofPairs pairs).get? name = pairs.reverse.lookup name := by
  induction pairs using List.reverseRecOn with
  | nil => rfl
  | append_singleton pairs p ih =>
      rw [ofPairs, List.foldl_concat, List.reverse_concat, List.lookup_cons, ← ih, ofPairs]
      by_cases h : name = p.1
      · rw [h, Props.get?_put, beq_self_eq_true]
      · rw [Props.get?_put_of_ne h, beq_false_of_ne h]

end TaskLine.Markup
