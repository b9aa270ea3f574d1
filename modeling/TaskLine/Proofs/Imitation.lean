import TaskLine.Pieces
import TaskLine.Proofs.Attributes
import TaskLine.Proofs.Recognition

/-!
# Attributes that pass for others

What a tag says is searched for in its text: a name where a word can begin, and what has to follow
it. The search does not ask whether it stands at the beginning of an attribute, so an attribute may
pass for another one, by a name that ends in the other name behind a hyphen, or by a value that
holds it. For tags whose attributes are names with values in double quotes this module says exactly
when that happens.

A span is taken for a wrapper if one of its attributes is the key, or mimics it. Of the other names
the one that is found is that of the attribute itself, unless an attribute in front of it was
`misheard` (`attributeFrom?_written`). A value that ends in the name and an equals sign is misheard
too: its closing quote is taken for the opening one of a value, and what is read is the name of the
next attribute.
-/

namespace TaskLine.Markup

open Text (WordsBegin isWordChar)

/-- A span around a text. -/
def spanElement (attrs : List (Text × Text)) (text : Text) : Text :=
  spanTag attrs ++ (text ++ "</span>".toList)

variable {attrs : List (Text × Text)} {a : Text × Text} {name t : Text}

/-! ## What is taken for the key -/

/-- The name is that of the key attribute, in any case of its ASCII letters. -/
def NamesKey (name : Text) : Prop := name.map Text.lowerAscii = keyName

instance (name : Text) : Decidable (NamesKey name) := inferInstanceAs (Decidable (_ = _))

/-- The end of a name could be the name of the key attribute. -/
def EndsInKey (name : Text) : Prop :=
  ∃ u x, name = u ++ x ∧ WordsBegin u.getLast? ∧ SpellsKey x

/-- An attribute is not the key, but the end of its name or something in its value is taken for
it. -/
def MimicsKey (a : Text × Text) : Prop := ¬NamesKey a.1 ∧ (EndsInKey a.1 ∨ KeyStands a.2)

theorem NamesKey.endsInKey (h : NamesKey name) : EndsInKey name :=
  ⟨[], name, rfl, nofun, by rw [SpellsKey, ← h]; exact Text.afterFold?_map_lowerAscii name⟩

theorem namesKey_or_mimicsKey_iff : NamesKey a.1 ∨ MimicsKey a ↔ EndsInKey a.1 ∨ KeyStands a.2 := by
  by_cases h : NamesKey a.1
  · exact iff_of_true (.inl h) (.inl h.endsInKey)
  · rw [MimicsKey, and_iff_right h, or_iff_right h]

/-- An equals sign completes the key attribute exactly behind its name. -/
theorem keyStands_equals_iff (h : PlainName name) :
    KeyStands (name ++ ['=']) ↔ EndsInKey name := by
  constructor
  · rintro ⟨u, x, g, r, heq, hbegin, hx, hg⟩
    rcases List.eq_nil_or_concat r with rfl | ⟨r, d, rfl⟩
    · have hends : name ++ ['='] = (u ++ (x ++ g)) ++ ['='] := by
        rw [heq]
        simp
      have hname : name = u ++ (x ++ g) := List.append_cancel_right hends
      have hgap : g = [] := by
        refine List.eq_nil_iff_forall_not_mem.mpr fun c hc => ?_
        have hspace := hg c hc
        have hmem : c ∈ name := by simp [hname, hc]
        rcases h c hmem with hword | rfl
        · rw [Text.isWordChar_of_isSpace hspace] at hword
          cases hword
        · cases hspace
      rw [hgap, List.append_nil] at hname
      exact ⟨u, x, hname, hbegin, hx⟩
    · -- the equals sign that was found would be one in the name
      have hends : name ++ ['='] = (u ++ (x ++ (g ++ '=' :: r))) ++ [d] := by
        rw [heq]
        simp
      have hinit : name = u ++ (x ++ (g ++ '=' :: r)) := (List.append_inj' hends rfl).1
      exact absurd (by simp [hinit]) h.equals_notMem
  · rintro ⟨u, x, rfl, hbegin, hx⟩
    exact ⟨u, x, [], [], by simp, hbegin, hx, .nil⟩

theorem carriesKeyFrom_written (h : ∀ a ∈ attrs, PlainAttribute a) (before : Option Char) :
    carriesKeyFrom before (written attrs ++ ['>']) = true ↔
      ∃ a ∈ attrs, EndsInKey a.1 ∨ KeyStands a.2 := by
  induction attrs generalizing before with
  | nil =>
      have hnone : carriesKeyFrom before ['>'] = false := by
        rw [carriesKeyFrom, carriesKeyFrom, show beginsKey ['>'] = false from rfl]
        simp
      rw [written, List.flatMap_nil, List.nil_append, hnone]
      simp
  | cons a attrs ih =>
      obtain ⟨ha, h⟩ := List.forall_mem_cons.mp h
      have hsplit : ' ' :: (a.1 ++ '=' :: '"' :: (a.2 ++ '"' :: (written attrs ++ ['>']))) =
          (' ' :: (a.1 ++ ['='])) ++ '"' :: (a.2 ++ '"' :: (written attrs ++ ['>'])) := by simp
      have hname : carriesKeyFrom before (' ' :: (a.1 ++ ['='])) = carriesKey (a.1 ++ ['=']) := by
        rw [carriesKeyFrom, show beginsKey (' ' :: (a.1 ++ ['='])) = false from rfl,
          carriesKeyFrom_some (by decide +kernel), Bool.and_false, Bool.false_or]
      have hrest := ih h none
      rw [← carriesKey] at hrest
      rw [written_cons, hsplit, carriesKeyFrom_append_quote, hname, carriesKey, carriesKey,
        carriesKeyFrom_append_quote, ← carriesKey, ← carriesKey, Bool.or_eq_true, Bool.or_eq_true,
        hrest, carriesKey_iff, carriesKey_iff, keyStands_equals_iff ha.name,
        List.exists_mem_cons_iff, or_assoc]

theorem opensWrapper_spanTag_iff (h : ∀ a ∈ attrs, PlainAttribute a) :
    opensWrapper (spanTag attrs) = true ↔
      (∃ a ∈ attrs, NamesKey a.1) ∨ ∃ a ∈ attrs, MimicsKey a := by
  have hspan : beginsSpan (spanTag attrs) = true := rfl
  have hskip : carriesKey (spanTag attrs) = carriesKeyFrom (some 'n') (written attrs ++ ['>']) :=
    rfl
  rw [opensWrapper, hspan, Bool.true_and, hskip, carriesKeyFrom_written h]
  simp only [← namesKey_or_mimicsKey_iff, and_or_left, exists_or]

/-! ## What is taken for another attribute -/

/-- A text ends in another, and a word can begin where that begins. -/
def EndsInWord (p s : Text) : Prop := ∃ u, s = u ++ p ∧ WordsBegin u.getLast?

instance (p s : Text) : Decidable (EndsInWord p s) :=
  decidable_of_iff (p <:+ s ∧ WordsBegin (s.take (s.length - p.length)).getLast?) <| by
    constructor
    · rintro ⟨⟨u, rfl⟩, hbegin⟩
      rw [List.length_append, Nat.add_sub_cancel, List.take_left] at hbegin
      exact ⟨u, rfl, hbegin⟩
    · rintro ⟨u, rfl, hbegin⟩
      rw [List.length_append, Nat.add_sub_cancel, List.take_left]
      exact ⟨List.suffix_append u p, hbegin⟩

theorem endsInWord_self (p : Text) : EndsInWord p p := ⟨[], rfl, nofun⟩

/-- The value that is read in place of that of the attribute `name` because an attribute in front of
it passes for it: by the end of its name, or by the end of its value, where it is the name of the
next attribute that is read. -/
def misheard (name : Text) : List (Text × Text) → Option Text
  | [] => none
  | a :: rest =>
    if a.1 = name then none
    else if EndsInWord name a.1 then some a.2
    else if EndsInWord (name ++ ['=']) a.2 then rest.head?.map fun b => ' ' :: (b.1 ++ ['='])
    else misheard name rest

/-- A name that is searched for is that of a data attribute. -/
structure SearchedName (name : Text) : Prop where
  begins : ∃ cs, name = 'd' :: cs
  plain : PlainName name

theorem searchedName_keyName : SearchedName keyName := ⟨⟨_, rfl⟩, by decide +kernel⟩

/-- The name of the attribute with the order tag. -/
def orderName : Text := "data-order-tag".toList

theorem searchedName_orderName : SearchedName orderName := ⟨⟨_, rfl⟩, by decide +kernel⟩

/-- Two texts that are each cut at the first of the same characters. -/
theorem after?_append_cons {p q x w : Text} {e : Char} (hp : e ∉ p) (hx : e ∉ x) :
    Text.after? (p ++ e :: q) (x ++ e :: w) = if x = p then Text.after? q w else none := by
  induction p generalizing x with
  | nil =>
      cases x with
      | nil => simp [Text.after?]
      | cons c x =>
          have hc := (List.ne_and_not_mem_of_not_mem_cons hx).1
          simp [Text.after?, hc]
  | cons b p ih =>
      obtain ⟨hb, hp⟩ := List.ne_and_not_mem_of_not_mem_cons hp
      cases x with
      | nil => simp [Text.after?, Ne.symm hb]
      | cons c x =>
          have hx := (List.ne_and_not_mem_of_not_mem_cons hx).2
          rw [List.cons_append, List.cons_append, Text.after?, ih hp hx]
          by_cases hbc : b = c
          · simp [hbc]
          · simp [hbc, Ne.symm hbc]

section Searching

variable {p q w x u v : Text} {e d : Char} {before : Option Char}

/-- What is searched for begins with a letter, so it does not begin at another character. -/
theorem attributeFrom?_cons (hname : SearchedName name) (hd : isWordChar d = false)
    (before : Option Char) (t : Text) :
    attributeFrom? name before (d :: t) = attributeFrom? name (some d) t := by
  obtain ⟨cs, rfl⟩ := hname.begins
  have hne : 'd' ≠ d := by
    rintro rfl
    exact absurd hd (by decide)
  rw [attributeFrom?, List.cons_append, Text.after?, if_neg hne, Option.bind_none, ite_self]

variable (hpat : name ++ "=\"".toList = p ++ e :: q)
  (hbegins : ∃ cs, p = 'd' :: cs) (hp : e ∉ p)
include hpat hbegins hp

/-- The search passes a piece of the text, up to a character of what is searched for, that does not
end in the part in front of this character, or has no value behind it. -/
theorem attributeFrom?_pass (hx : e ∉ x)
    (hno : ∀ u, x = u ++ p → WordsBegin (u.getLast?.or before) →
      (Text.after? q w).bind value? = none) :
    attributeFrom? name before (x ++ e :: w) = attributeFrom? name (some e) w := by
  obtain ⟨bs, rfl⟩ := hbegins
  induction x generalizing before with
  | nil =>
      have hnone := after?_append_cons (q := q) (w := w) hp hx
      rw [List.nil_append] at hnone ⊢
      rw [attributeFrom?, hpat, hnone, if_neg (List.cons_ne_nil _ _).symm, Option.bind_none,
        ite_self]
  | cons c x ih =>
      have hfound : Text.after? ('d' :: bs ++ e :: q) (c :: (x ++ e :: w)) =
          if c :: x = 'd' :: bs then Text.after? q w else none := after?_append_cons hp hx
      rw [List.cons_append]
      have hhere : (if Text.boundary before c then
          (Text.after? (name ++ "=\"".toList) (c :: (x ++ e :: w))).bind value?
          else none) = none := by
        rw [hpat, hfound]
        split
        · rename_i hboundary
          split
          · rename_i heq
            obtain ⟨rfl, rfl⟩ := List.cons_eq_cons.mp heq
            exact hno [] rfl ((Text.boundary_iff (by decide)).mp hboundary)
          · rfl
        · rfl
      rw [attributeFrom?]
      simp only [hhere]
      refine ih (List.ne_and_not_mem_of_not_mem_cons hx).2 fun u hu hbegin => ?_
      exact hno (c :: u) (by rw [hu, List.cons_append]) (by rwa [Text.getLast?_cons_or])

/-- The search finds what is searched for at the end of a piece of the text. -/
theorem attributeFrom?_find (hu : e ∉ u) (hbegin : WordsBegin (u.getLast?.or before))
    (hv : (Text.after? q w).bind value? = some v) :
    attributeFrom? name before ((u ++ p) ++ e :: w) = some v := by
  obtain ⟨bs, rfl⟩ := hbegins
  induction u generalizing before with
  | nil =>
      have hfound : Text.after? ('d' :: bs ++ e :: q) ('d' :: (bs ++ e :: w)) = Text.after? q w :=
        (after?_append_cons hp hp).trans (if_pos rfl)
      have hboundary : Text.boundary before 'd' = true := (Text.boundary_iff (by decide)).mpr hbegin
      rw [List.nil_append, List.cons_append, attributeFrom?, hpat, if_pos hboundary, hfound, hv]
  | cons c u ih =>
      have hin : e ∉ (c :: u) ++ 'd' :: bs := fun hmem =>
        (List.mem_append.mp hmem).elim hu hp
      have hlonger : c :: u ++ 'd' :: bs ≠ 'd' :: bs := fun heq =>
        List.cons_ne_nil c u (List.append_left_eq_self.mp heq)
      have hnone : Text.after? ('d' :: bs ++ e :: q) (c :: (u ++ 'd' :: bs ++ e :: w)) = none :=
        (after?_append_cons hp hin).trans (if_neg hlonger)
      rw [List.cons_append, List.cons_append, attributeFrom?, hpat, hnone, Option.bind_none,
        ite_self]
      rw [Text.getLast?_cons_or] at hbegin
      exact ih (List.ne_and_not_mem_of_not_mem_cons hu).2 hbegin

/-- A piece of the text up to a character of what is searched for. -/
theorem attributeFrom?_piece (hx : e ∉ x) (hbefore : WordsBegin before) :
    attributeFrom? name before (x ++ e :: w) =
      if EndsInWord p x then
        ((Text.after? q w).bind value?).or (attributeFrom? name (some e) w)
      else attributeFrom? name (some e) w := by
  have hfront : ∀ u : Text, WordsBegin (u.getLast?.or before) ↔ WordsBegin u.getLast? := by
    intro u
    cases u.getLast? with
    | none => exact iff_of_true hbefore nofun
    | some c => exact Iff.rfl
  split
  next hends =>
    obtain ⟨u, rfl, hbegin⟩ := hends
    cases hv : (Text.after? q w).bind value? with
    | none => exact attributeFrom?_pass hpat hbegins hp hx fun _ _ _ => hv
    | some v =>
        have hu : e ∉ u := fun hmem => hx (List.mem_append_left p hmem)
        exact attributeFrom?_find hpat hbegins hp hu ((hfront u).mpr hbegin) hv
  next hends =>
    exact attributeFrom?_pass hpat hbegins hp hx fun u hu hbegin =>
      absurd ⟨u, hu, (hfront u).mp hbegin⟩ hends

end Searching

/-- A value that begins where the attributes stand ends with the first of their quotes. -/
theorem value?_written (h : ∀ a ∈ attrs, PlainAttribute a) :
    value? (written attrs ++ ['>']) = attrs.head?.map fun b => ' ' :: (b.1 ++ ['=']) := by
  cases attrs with
  | nil => rfl
  | cons b attrs =>
      have hname := (List.forall_mem_cons.mp h).1.name.quote_notMem
      have hquote : '"' ∉ ' ' :: (b.1 ++ ['=']) := by simp [hname]
      have hsplit : ' ' :: (b.1 ++ '=' :: '"' :: (b.2 ++ '"' :: (written attrs ++ ['>']))) =
          (' ' :: (b.1 ++ ['='])) ++ '"' :: (b.2 ++ '"' :: (written attrs ++ ['>'])) := by simp
      rw [written_cons, hsplit, value?, splitAt?_append hquote]
      rfl

section Pieces

variable {w : Text} (hname : SearchedName name) (ha : PlainAttribute a)
include hname ha

/-- The search comes to the name of an attribute. -/
theorem attributeFrom?_name :
    attributeFrom? name (some ' ') (a.1 ++ '=' :: '"' :: (a.2 ++ '"' :: w)) =
      if EndsInWord name a.1 then some a.2
      else attributeFrom? name (some '"') (a.2 ++ '"' :: w) := by
  have hread : (Text.after? ['"'] ('"' :: (a.2 ++ '"' :: w))).bind value? = some a.2 := by
    show value? (a.2 ++ '"' :: w) = some a.2
    rw [value?, splitAt?_append ha.value]
    rfl
  have hquote := attributeFrom?_cons hname (d := '"') (by decide +kernel) (some '=')
    (a.2 ++ '"' :: w)
  rw [attributeFrom?_piece (q := ['"']) (by simp) hname.begins hname.plain.equals_notMem
    ha.name.equals_notMem (by decide +kernel), hread, hquote]
  rfl

/-- The search comes to the value of an attribute. What it finds there ends with the quote that
closes the value, and is read from behind it. -/
theorem attributeFrom?_value :
    attributeFrom? name (some '"') (a.2 ++ '"' :: w) =
      if EndsInWord (name ++ ['=']) a.2 then (value? w).or (attributeFrom? name (some '"') w)
      else attributeFrom? name (some '"') w := by
  obtain ⟨cs, hbegins⟩ := hname.begins
  have hquote : '"' ∉ name ++ ['='] := fun hmem => by
    rcases List.mem_append.mp hmem with hmem | hmem
    · exact hname.plain.quote_notMem hmem
    · exact absurd hmem (by decide)
  exact attributeFrom?_piece (q := []) (by simp) ⟨cs ++ ['='], by simp [hbegins]⟩ hquote ha.value
    (by decide +kernel)

end Pieces

/-- What is read for a name among written attributes. -/
theorem attributeFrom?_written (hname : SearchedName name) (h : ∀ a ∈ attrs, PlainAttribute a)
    (before : Option Char) :
    attributeFrom? name before (written attrs ++ ['>']) =
      (misheard name attrs).or (attrs.lookup name) := by
  induction attrs generalizing before with
  | nil =>
      rw [written, List.flatMap_nil, List.nil_append, attributeFrom?_cons hname (by decide +kernel)]
      rfl
  | cons a attrs ih =>
      obtain ⟨ha, h⟩ := List.forall_mem_cons.mp h
      rw [written_cons, attributeFrom?_cons hname (by decide +kernel), attributeFrom?_name hname ha,
        attributeFrom?_value hname ha, value?_written h, ih h, misheard]
      by_cases hown : a.1 = name
      · have hends : EndsInWord name a.1 := hown ▸ endsInWord_self a.1
        have hlookup : List.lookup name (a :: attrs) = some a.2 := by
          rw [List.lookup_cons, beq_iff_eq.mpr hown.symm]
        rw [if_pos hends, if_pos hown, hlookup, Option.none_or]
      · have hlookup : List.lookup name (a :: attrs) = List.lookup name attrs := by
          rw [List.lookup_cons, beq_false_of_ne (Ne.symm hown)]
        rw [if_neg hown, hlookup]
        by_cases hends : EndsInWord name a.1
        · rw [if_pos hends, if_pos hends, Option.some_or]
        rw [if_neg hends, if_neg hends]
        by_cases hvalue : EndsInWord (name ++ ['=']) a.2
        · rw [if_pos hvalue, if_pos hvalue]
          -- behind the last attribute there is no value to be misheard
          cases attrs with
          | nil => rfl
          | cons b attrs => rfl
        · rw [if_neg hvalue, if_neg hvalue]

/-! ## What is read from a span -/

/-- A value that is there and is not empty. -/
def present (v : Option Text) : Option Text := v.filter (!·.isEmpty)

/-- What was misheard does no harm exactly if it is the same. -/
theorem present_or_iff (misheard own : Option Text) :
    present (misheard.or own) = present own ↔
      ∀ v, misheard = some v → present (some v) = present own := by
  cases misheard with
  | none => exact iff_of_true rfl nofun
  | some v => exact ⟨fun heq w hw => Option.some.inj hw ▸ heq, fun h => h v rfl⟩

theorem wrappers_spanElement (h : ∀ a ∈ attrs, PlainAttribute a) {text : Text}
    (htext : '<' ∉ text) :
    wrappers (spanElement attrs text) =
      if opensWrapper (spanTag attrs) then [spanElement attrs text] else [] := by
  have hend : WholeTag "</span>".toList := ⟨⟨_, rfl⟩, fun _ => rfl⟩
  cases hopens : opensWrapper (spanTag attrs) with
  | true =>
      have hbody : ∀ v, bodyLength 1 0 ((text ++ "</span>".toList) ++ v) =
          (text ++ "</span>".toList).length := by
        intro v
        have hzero : bodyLength 0 0 v = 0 := by cases v <;> rfl
        rw [List.append_assoc, bodyLength_text 0 htext, bodyLength_tag 0 hend,
          show depthAfter 1 "</span>".toList = 0 by decide, hzero, List.length_append, Nat.add_zero]
      exact (closed_append (wholeTag_spanTag h) hopens hbody).reads.wrappers_eq
  | false =>
      have hpasses : Passes (spanElement attrs text) :=
        .tag (wholeTag_spanTag h) hopens <| (Passes.of_not_mem htext).append <|
          List.append_nil "</span>".toList ▸ .tag hend (by decide) .nil
      exact hpasses.reads.wrappers_eq

theorem attribute?_spanTag (hname : SearchedName name) (h : ∀ a ∈ attrs, PlainAttribute a) :
    attribute? name (spanTag attrs) = (misheard name attrs).or (attrs.lookup name) := by
  have hskip : ∀ x : Text, attributeFrom? name none ("<span".toList ++ x) =
      attributeFrom? name (some 'n') x := by
    obtain ⟨cs, rfl⟩ := hname.begins
    exact fun _ => rfl
  rw [attribute?, spanTag, hskip, attributeFrom?_written hname h]

theorem order_read_spanTag (h : ∀ a ∈ attrs, PlainAttribute a) (rest : Text) :
    (Template.read (spanTag attrs ++ rest)).order =
      present ((misheard orderName attrs).or (attrs.lookup orderName)) := by
  have horder : ∀ w, (Template.read w).order = present (attribute? orderName (openingTag w)) :=
    fun _ => rfl
  rw [horder, openingTag_append (wholeTag_spanTag h), attribute?_spanTag searchedName_orderName h]

/-- The scanner takes a span for a wrapper exactly if one of its attributes is the key or mimics it,
and its order tag is that of its first attribute with this name exactly if no attribute in front of
that one is misheard for it, or what was misheard is the same. -/
theorem spanElement_read (attrs : List (Text × Text)) (text : Text)
    (h : ∀ a ∈ attrs, PlainAttribute a) (htext : '<' ∉ text) :
    (wrappers (spanElement attrs text) = [spanElement attrs text] ∨
        wrappers (spanElement attrs text) = []) ∧
      (wrappers (spanElement attrs text) = [spanElement attrs text] ↔
        (∃ a ∈ attrs, NamesKey a.1) ∨ ∃ a ∈ attrs, MimicsKey a) ∧
      ((Template.read (spanElement attrs text)).order = present (attrs.lookup orderName) ↔
        ∀ v, misheard orderName attrs = some v →
          present (some v) = present (attrs.lookup orderName)) := by
  rw [spanElement, order_read_spanTag h, ← spanElement, wrappers_spanElement h htext,
    ← opensWrapper_spanTag_iff h]
  refine ⟨?_, ?_, present_or_iff _ _⟩
  · split
    · exact .inl rfl
    · exact .inr rfl
  · cases opensWrapper (spanTag attrs) with
    | true => exact iff_of_true rfl rfl
    | false => exact iff_of_false nofun nofun

/-- A span with a title that ends in the name of the attribute behind it, and an order tag. -/
def titledAttributes : List (Text × Text) :=
  [("title".toList, "by data-order-tag=".toList), ("old-Data-Template-Key".toList, "a>b".toList),
    ("data-order-tag".toList, "state".toList)]

theorem spanElement_read_titled :
    (∀ a ∈ titledAttributes, PlainAttribute a) ∧
      wrappers (spanElement titledAttributes "c".toList) =
        [spanElement titledAttributes "c".toList] ∧
      (Template.read (spanElement titledAttributes "c".toList)).order ≠ some "state".toList := by
  have hplain : ∀ a ∈ titledAttributes, PlainAttribute a := by decide +kernel
  obtain ⟨-, hfound, horder⟩ := spanElement_read titledAttributes "c".toList hplain (by decide)
  have hmimics : MimicsKey ("old-Data-Template-Key".toList, "a>b".toList) :=
    ⟨by decide, .inl ⟨"old-".toList, "Data-Template-Key".toList, rfl, by decide +kernel, rfl⟩⟩
  refine ⟨hplain, hfound.mpr (.inr ⟨_, by decide, hmimics⟩), fun heq => ?_⟩
  have hmisheard := horder.mp heq " old-Data-Template-Key=".toList (by decide +kernel)
  exact absurd hmisheard (by decide)

/-- A span is found that does not have the key attribute, and an order tag is read that none of the
attributes has the name of. -/
theorem mimics_taken :
    (¬ ∀ (attrs : List (Text × Text)) (text : Text), (∀ a ∈ attrs, PlainAttribute a) →
      '<' ∉ text → (wrappers (spanElement attrs text) = [spanElement attrs text] ↔
        ∃ a ∈ attrs, NamesKey a.1)) ∧
      ¬ ∀ (attrs : List (Text × Text)) (text : Text), (∀ a ∈ attrs, PlainAttribute a) →
        '<' ∉ text →
          (Template.read (spanElement attrs text)).order = present (attrs.lookup orderName) := by
  constructor
  · intro h
    have hkey := (h [("title".toList, "data-template-key=x".toList)] "a".toList (by decide +kernel)
      (by decide)).mp (by decide +kernel)
    exact absurd hkey (by decide)
  · intro h
    have horder := h [("x-data-order-tag".toList, "state".toList)] "a".toList (by decide +kernel)
      (by decide)
    exact absurd horder (by decide +kernel)

end TaskLine.Markup
