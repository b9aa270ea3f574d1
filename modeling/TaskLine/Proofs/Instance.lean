import TaskLine.Proofs.Imitation

/-!
# Reading an instance back

The wrapper of an instance of a template is written with its id, its key and its properties as
attributes (`wrap_eq`), unless a number among them has too many digits. Read back, it has the key
and the properties that were written, escaped: the key stands second, and the id in front of it
cannot be misheard for it, and the properties are read one behind the other. The order tag is
searched for, and what is found need not be the property with this name (`read_wrap`).
-/

namespace TaskLine

namespace Text

/-- Below the letters with case beyond ASCII each character has its own lower-case form. -/
theorem lower_eq_map {s : Text} (h : ∀ c ∈ s, c.toNat < 128) : lower s = s.map lowerAscii := by
  have hfrom : ∀ before, lowerFrom before s = s.map lowerAscii := by
    induction s with
    | nil => exact fun _ => rfl
    | cons c s ih =>
        obtain ⟨hc, h⟩ := List.forall_mem_cons.mp h
        intro before
        rw [lowerFrom, ih h, lowerChar, if_neg (by omega), if_neg (by omega), if_pos hc]
        rfl
  exact hfrom []

theorem exceedsDigits_of_lt {n : Int} (h : n.natAbs < 10) : exceedsDigits n = false := by
  have hlimit : ∀ k, k ≠ 0 → 10 ≤ Nat.pow 10 k := fun k hk => Nat.le_self_pow hk 10
  have hten : 10 ≤ Nat.pow 10 digitLimit := hlimit _ (by decide)
  exact decide_eq_false (Nat.not_le.mpr (Nat.lt_of_lt_of_le h hten))

end Text

/-- The id of a wrapper: letters, digits and hyphens. -/
structure InstanceId (id : Text) : Prop where
  ne_nil : id ≠ []
  forall_mem : ∀ c ∈ id, Line.isBlockChar c = true

theorem InstanceId.escape_eq {id : Text} (hid : InstanceId id) : Markup.escape id = id := by
  have hchar : ∀ c ∈ id, Markup.escapeChar c = [c] := fun c hc => by
    have hne : ∀ d, Line.isBlockChar d = false → c ≠ d := by
      rintro d hd rfl
      rw [hid.forall_mem c hc] at hd
      cases hd
    rw [Markup.escapeChar, if_neg (hne '&' (by decide)), if_neg (hne '<' (by decide)),
      if_neg (hne '>' (by decide)), if_neg (hne '"' (by decide)), if_neg (hne '\'' (by decide))]
  rw [Markup.escape, List.flatMap_congr hchar, List.flatMap_singleton']

namespace Markup

/-! ## Names of properties -/

/-- A name of a property: ASCII letters, digits and underscores. -/
structure PropName (name : Text) : Prop where
  ne_nil : name ≠ []
  forall_mem : ∀ c ∈ name, (Text.isAsciiLetter c || Text.isAsciiDigit c || c == '_') = true

instance (name : Text) : Decidable (PropName name) :=
  decidable_of_iff (name ≠ [] ∧
      ∀ c ∈ name, (Text.isAsciiLetter c || Text.isAsciiDigit c || c == '_') = true)
    ⟨fun h => ⟨h.1, h.2⟩, fun h => ⟨h.1, h.2⟩⟩

variable {name s : Text} {c : Char}

theorem mem_hyphenate (h : c ∈ hyphenate s) : c ∈ s ∨ c = '-' := by
  fun_induction hyphenate s with
  | case1 => exact .inl h
  | case2 => exact .inl h
  | case3 a b s hup ih =>
      rcases List.mem_cons.mp h with rfl | h
      · exact .inl List.mem_cons_self
      rcases List.mem_cons.mp h with rfl | h
      · exact .inr rfl
      · exact (ih h).imp_left (List.mem_cons_of_mem a)
  | case4 a b s hup ih =>
      rcases List.mem_cons.mp h with rfl | h
      · exact .inl List.mem_cons_self
      · exact (ih h).imp_left (List.mem_cons_of_mem a)

theorem hyphenate_ne_nil (h : s ≠ []) : hyphenate s ≠ [] := by
  fun_cases hyphenate s with
  | case1 => exact h
  | _ => simp

theorem mem_joinWords {within : Bool} (h : c ∈ joinWords within s) :
    (c ∈ s ∧ separatesWords c = false) ∨ c = '-' := by
  fun_induction joinWords within s with
  | case1 => cases h
  | case2 a s hsep ih =>
      exact (ih h).imp_left fun h => ⟨List.mem_cons_of_mem a h.1, h.2⟩
  | case3 within a s hsep hwithin ih =>
      rcases List.mem_cons.mp h with rfl | h
      · exact .inr rfl
      · exact (ih h).imp_left fun h => ⟨List.mem_cons_of_mem a h.1, h.2⟩
  | case4 within a s hsep ih =>
      rcases List.mem_cons.mp h with rfl | h
      · exact .inl ⟨List.mem_cons_self, Bool.eq_false_iff.mpr hsep⟩
      · exact (ih h).imp_left fun h => ⟨List.mem_cons_of_mem a h.1, h.2⟩

theorem joinWords_ne_nil (h : s ≠ []) : joinWords false s ≠ [] := by
  obtain ⟨c, s, rfl⟩ := List.exists_cons_of_ne_nil h
  rw [joinWords]
  split
  · exact List.cons_ne_nil _ _
  · exact List.cons_ne_nil _ _

theorem toNat_lt_of_isBlockChar (h : Line.isBlockChar c = true) : c.toNat < 128 := by
  simp only [Line.isBlockChar, Text.isAsciiLetter, Text.isAsciiLower, Text.isAsciiUpper,
    Text.isAsciiDigit, Bool.or_eq_true, Bool.and_eq_true, decide_eq_true_eq, beq_iff_eq,
    Char.le_def, UInt32.le_iff_toNat_le] at h
  have hval : c.toNat = c.val.toNat := rfl
  rcases h with ((⟨-, h⟩ | ⟨-, h⟩) | ⟨-, h⟩) | rfl
  · exact hval ▸ h.trans_lt (by decide)
  · exact hval ▸ h.trans_lt (by decide)
  · exact hval ▸ h.trans_lt (by decide)
  · decide

/-- Of the characters in names of properties only letters have another form. -/
theorem isBlockChar_lowerAscii (h : Line.isBlockChar c = true) :
    Line.isBlockChar (Text.lowerAscii c) = true := by
  have hall : ∀ n < 128, Line.isBlockChar (Char.ofNat n) = true →
      Line.isBlockChar (Text.lowerAscii (Char.ofNat n)) = true := by decide +kernel
  have hlower := hall c.toNat (toNat_lt_of_isBlockChar h)
  rw [Char.ofNat_toNat] at hlower
  exact hlower h

theorem PropName.dataName_kebab (h : PropName name) : DataName (kebab name) := by
  have hjoined : ∀ c ∈ joinWords false (hyphenate name), Line.isBlockChar c = true := by
    intro c hc
    rcases mem_joinWords hc with ⟨hmem, hsep⟩ | rfl
    · rcases mem_hyphenate hmem with hmem | rfl
      · have hname := h.forall_mem c hmem
        have hne : (c == '_') = false := (Bool.or_eq_false_iff.mp hsep).1
        rw [hne, Bool.or_false] at hname
        rw [Line.isBlockChar, hname, Bool.true_or]
      · rfl
    · rfl
  have hkebab : kebab name = (joinWords false (hyphenate name)).map Text.lowerAscii :=
    Text.lower_eq_map fun c hc => toNat_lt_of_isBlockChar (hjoined c hc)
  constructor
  · rw [hkebab, Ne, List.map_eq_nil_iff]
    exact joinWords_ne_nil (hyphenate_ne_nil h.ne_nil)
  · rw [hkebab, List.forall_mem_map]
    intro c hc
    rw [isDataNameChar, ← Line.isBlockChar, isBlockChar_lowerAscii (hjoined c hc), Bool.true_or]

/-! ## How an instance is written -/

/-- What the opening tag of an instance says. -/
def said (id key : Text) (props : List (Text × PropValue)) : List (Text × Text) :=
  ("template-wrapper".toList, id) :: ("template-key".toList, key) ::
    props.filterMap fun p => p.2.written?.map fun v => (kebab p.1, v)

variable {id key inner : Text} {props : List (Text × PropValue)}

theorem flatMap_propText (props : List (Text × PropValue)) :
    props.flatMap propText =
      attributes (props.filterMap fun p => p.2.written?.map fun v => (kebab p.1, v)) := by
  induction props with
  | nil => rfl
  | cons p props ih =>
      rw [List.flatMap_cons, ih, propText]
      cases hv : p.2.written? with
      | none => rw [List.filterMap_cons_none (by rw [hv]; rfl), List.nil_append]
      | some v =>
          rw [List.filterMap_cons_some (by rw [hv]; rfl)]
          rfl

theorem wrap_eq (hid : InstanceId id) (key inner : Text) (props : List (Text × PropValue)) :
    wrap id key inner props =
      spanTag (inFull (said id key props)) ++ (inner ++ "</span>".toList) := by
  have hspan : "<span data-template-wrapper=\"".toList ++ id ++ ['"'] =
      "<span".toList ++ attributeText ("data-".toList ++ "template-wrapper".toList) id := by
    have hsplit : "<span data-template-wrapper=\"".toList = "<span".toList ++
        (' ' :: ("data-".toList ++ ("template-wrapper".toList ++ "=\"".toList))) := by decide
    refine (congrArg (· ++ id ++ ['"']) hsplit).trans ?_
    simp only [attributeText, hid.escape_eq, List.append_assoc, List.cons_append]
  have hkey : attributeText "data-template-key".toList key =
      attributeText ("data-".toList ++ "template-key".toList) key :=
    congrArg (attributeText · key) (by decide)
  have hassemble : ∀ {a a' k k' ps ps' z : Text}, a = a' → k = k' → ps = ps' →
      a ++ k ++ ps ++ ['>'] ++ inner ++ z = a' ++ (k' ++ (ps' ++ '>' :: (inner ++ z))) := by
    rintro _ _ _ _ _ _ z rfl rfl rfl
    simp
  refine (hassemble hspan hkey (flatMap_propText props)).trans ?_
  simp only [spanTag, ← attributes_eq_written, said, attributes, List.flatMap_cons,
    List.append_assoc, List.cons_append, List.nil_append]

/-! ## How it is read -/

theorem dataName_said (h : ∀ p ∈ props, PropName p.1) : ∀ a ∈ said id key props, DataName a.1 := by
  have hwrapper : DataName "template-wrapper".toList := by decide
  have hkey : DataName "template-key".toList := by decide
  refine List.forall_mem_cons.mpr ⟨hwrapper, List.forall_mem_cons.mpr ⟨hkey, fun a ha => ?_⟩⟩
  obtain ⟨p, hp, hv⟩ := List.mem_filterMap.mp ha
  obtain ⟨v, -, rfl⟩ := Option.map_eq_some_iff.mp hv
  exact (h p hp).dataName_kebab

theorem dataAttributes_spanTag {attrs : List (Text × Text)} (h : ∀ a ∈ attrs, DataName a.1) :
    dataAttributes (spanTag (inFull attrs)) = attrs.map fun a => (a.1, escape a.2) := by
  have hspan : ∀ x : Text, dataAttributesFrom none 0 ("<span".toList ++ x) =
      dataAttributesFrom (some 'n') 0 x := fun _ => rfl
  obtain ⟨before, hattrs⟩ := exists_dataAttributesFrom_eq h (some 'n') ['>']
  have hend : dataAttributesFrom before 0 ['>'] = [] := by
    rw [dataAttributesFrom, show dataAttribute? ['>'] = none from rfl, ite_self]
    rfl
  rw [dataAttributes, spanTag, ← attributes_eq_written, hspan, hattrs, hend, List.append_nil]

theorem Props.put_perm {v : Text} {ps : Props} (h : name ∉ ps.map Prod.fst) :
    (ps.put name v).Perm ((name, v) :: ps) := by
  induction ps with
  | nil => exact .refl _
  | cons p ps ih =>
      obtain ⟨hne, h⟩ := List.ne_and_not_mem_of_not_mem_cons h
      rw [Props.put, if_neg (Ne.symm hne)]
      split
      · exact .refl _
      · exact ((ih h).cons p).trans (.swap (name, v) p ps)

/-- Pairs with different names are all kept. -/
theorem Props.ofPairs_perm {pairs : List (Text × Text)} (h : (pairs.map Prod.fst).Nodup) :
    (ofPairs pairs).Perm pairs := by
  induction pairs using List.reverseRecOn with
  | nil => exact .refl _
  | append_singleton pairs p ih =>
      rw [List.map_append, List.nodup_append] at h
      obtain ⟨hpairs, -, hne⟩ := h
      have ih := ih hpairs
      have hnew : p.1 ∉ (ofPairs pairs).map Prod.fst := fun hmem =>
        hne p.1 ((ih.map Prod.fst).subset hmem) p.1 (List.mem_singleton_self _) rfl
      have hput : ofPairs (pairs ++ [p]) = (ofPairs pairs).put p.1 p.2 := by
        rw [ofPairs, List.foldl_concat, ofPairs]
      rw [hput]
      exact (put_perm hnew).trans ((ih.cons p).trans (List.perm_append_singleton p pairs).symm)

theorem lookup_reverse {pairs : List (Text × Text)} (h : (pairs.map Prod.fst).Nodup)
    (name : Text) : pairs.reverse.lookup name = pairs.lookup name := by
  induction pairs with
  | nil => rfl
  | cons p pairs ih =>
      obtain ⟨hnew, h⟩ := List.nodup_cons.mp h
      rw [List.reverse_cons, List.lookup_append, ih h, List.lookup_singleton, List.lookup_cons]
      cases heq : name == p.1 with
      | false => exact Option.or_none
      | true =>
          have hnone : pairs.lookup name = none := by
            rw [List.lookup_eq_none_iff]
            rintro q hq
            refine bne_iff_ne.mpr fun hname => hnew ?_
            exact beq_iff_eq.mp heq ▸ hname ▸ List.mem_map_of_mem hq
          rw [hnone]
          rfl

theorem lookup_inFull (attrs : List (Text × Text)) (name : Text) :
    (inFull attrs).lookup ("data-".toList ++ name) =
      (attrs.map fun a => (a.1, escape a.2)).lookup name := by
  induction attrs with
  | nil => rfl
  | cons a attrs ih =>
      have hname : ("data-".toList ++ name == "data-".toList ++ a.1) = (name == a.1) := by
        rw [Bool.eq_iff_iff, beq_iff_eq, beq_iff_eq, List.append_cancel_left_eq]
      rw [inFull, List.map_cons, List.map_cons, List.lookup_cons, List.lookup_cons, hname,
        ← inFull, ih]

section Reading

variable (hid : InstanceId id) (hnames : ∀ a ∈ said id key props, DataName a.1)
include hid hnames

theorem openingTag_wrap : openingTag (wrap id key inner props) =
    spanTag (inFull (said id key props)) := by
  rw [wrap_eq hid, openingTag_append (wholeTag_spanTag (plainAttribute_inFull hnames))]

/-- The properties are what the opening tag says, escaped. -/
theorem props_read_wrap : (Template.read (wrap id key inner props)).props =
    .ofPairs ((said id key props).map fun a => (a.1, escape a.2)) := by
  rw [Template.read]
  dsimp only
  rw [openingTag_wrap hid hnames, dataAttributes_spanTag hnames]

/-- The id in front of the key is not misheard for it. -/
theorem key_read_wrap : (Template.read (wrap id key inner props)).key = escape key := by
  obtain ⟨rest, hsaid⟩ : ∃ rest, inFull (said id key props) =
      ("data-".toList ++ "template-wrapper".toList, escape id) :: (keyName, escape key) :: rest :=
    ⟨_, rfl⟩
  have hne : "data-".toList ++ "template-wrapper".toList ≠ keyName := by decide
  have hname : ¬EndsInWord keyName ("data-".toList ++ "template-wrapper".toList) := by decide
  have hvalue : ¬EndsInWord (keyName ++ ['=']) (escape id) := by
    rintro ⟨u, hu, -⟩
    have hmem : '=' ∈ id := by
      rw [hid.escape_eq.symm.trans hu]
      simp
    exact absurd (hid.forall_mem _ hmem) (by decide)
  have hread := attribute?_spanTag searchedName_keyName (plainAttribute_inFull hnames)
  have hkey : ∀ w, (Template.read w).key = (attribute? keyName (openingTag w)).getD [] :=
    fun _ => rfl
  generalize "data-".toList ++ "template-wrapper".toList = wrapper at hsaid hne hname
  rw [hkey, openingTag_wrap hid hnames, hread, hsaid, misheard, if_neg hne, if_neg hname,
    if_neg hvalue, misheard, if_pos rfl, List.lookup_cons, beq_false_of_ne hne.symm,
    List.lookup_cons_self, Option.none_or, Option.getD_some]

/-- The properties are those that the opening tag says. -/
theorem props_perm (hnodup : ((said id key props).map Prod.fst).Nodup) :
    (Template.read (wrap id key inner props)).props.Perm
      ((said id key props).map fun a => (a.1, escape a.2)) := by
  rw [props_read_wrap hid hnames]
  refine Props.ofPairs_perm ?_
  rw [List.map_map]
  exact hnodup

/-- The property that could be the order tag stands in the tag under the name that is searched. -/
theorem lookup_orderName (hnodup : ((said id key props).map Prod.fst).Nodup) :
    (inFull (said id key props)).lookup orderName =
      (Template.read (wrap id key inner props)).props.get? "order-tag".toList := by
  have hname : orderName = "data-".toList ++ "order-tag".toList := by decide
  rw [props_read_wrap hid hnames, hname, lookup_inFull, Props.get?_ofPairs, lookup_reverse]
  rw [List.map_map]
  exact hnodup

end Reading

/-- A property that is left out has no name in the tag. -/
theorem names_sublist (props : List (Text × PropValue)) :
    ((props.filterMap fun p => p.2.written?.map fun v => (kebab p.1, v)).map Prod.fst).Sublist
      (props.map fun p => kebab p.1) := by
  induction props with
  | nil => exact .slnil
  | cons p props ih =>
      cases hv : p.2.written? with
      | none =>
          rw [List.filterMap_cons_none (by rw [hv]; rfl)]
          exact ih.cons _
      | some v =>
          rw [List.filterMap_cons_some (by rw [hv]; rfl)]
          exact ih.cons_cons _

theorem nodup_said (hnodup : (props.map fun p => kebab p.1).Nodup)
    (hown : ∀ p ∈ props, kebab p.1 ≠ "template-wrapper".toList ∧
      kebab p.1 ≠ "template-key".toList) :
    ((said id key props).map Prod.fst).Nodup := by
  have hne : ("template-wrapper".toList : Text) ≠ "template-key".toList := by decide
  rw [said, List.map_cons, List.map_cons]
  refine List.nodup_cons.mpr ⟨fun hmem => ?_, List.nodup_cons.mpr ⟨fun hmem => ?_, ?_⟩⟩
  · rcases List.mem_cons.mp hmem with heq | hmem
    · exact hne heq
    · obtain ⟨p, hp, heq⟩ := List.mem_map.mp ((names_sublist props).subset hmem)
      exact (hown p hp).1 heq
  · obtain ⟨p, hp, heq⟩ := List.mem_map.mp ((names_sublist props).subset hmem)
    exact (hown p hp).2 heq
  · exact hnodup.sublist (names_sublist props)

theorem wrapFor_eq_ok {html : Text} : wrapFor id key inner props = .ok html ↔
    (¬∃ p ∈ props, p.2.exceedsDigits = true) ∧ wrap id key inner props = html := by
  rw [wrapFor]
  split
  · rename_i hlong
    exact iff_of_false nofun fun h => h.1 (List.any_eq_true.mp hlong)
  · rename_i hshort
    exact ⟨fun h => ⟨mt List.any_eq_true.mpr hshort, Except.ok.inj h⟩, fun h => congrArg _ h.2⟩

/-- A wrapper is built exactly if no number in it is too long to be written. The key and the
properties are read as they were given, escaped. The order tag is the property with its name exactly
if nothing in front of that is misheard for it, or what was misheard is the same. -/
theorem read_wrap (hid : InstanceId id) (key inner : Text) (hnames : ∀ p ∈ props, PropName p.1)
    (hnodup : (props.map fun p => kebab p.1).Nodup)
    (hown : ∀ p ∈ props, kebab p.1 ≠ "template-wrapper".toList ∧
      kebab p.1 ≠ "template-key".toList) :
    ((∃ html, wrapFor id key inner props = .ok html) ↔
        ¬∃ p ∈ props, p.2.exceedsDigits = true) ∧
      ∀ html, wrapFor id key inner props = .ok html →
        (Template.read html).key = escape key ∧
          (Template.read html).props.Perm
            (("template-wrapper".toList, id) :: ("template-key".toList, escape key) ::
              props.filterMap fun p => p.2.written?.map fun v => (kebab p.1, escape v)) ∧
          ((Template.read html).order =
              present ((Template.read html).props.get? "order-tag".toList) ↔
            ∀ v, misheard orderName (inFull (said id key props)) = some v →
              present (some v) = present ((Template.read html).props.get? "order-tag".toList)) := by
  refine ⟨⟨fun ⟨_, hwrap⟩ => (wrapFor_eq_ok.mp hwrap).1,
    fun hshort => ⟨_, wrapFor_eq_ok.mpr ⟨hshort, rfl⟩⟩⟩, fun html hwrap => ?_⟩
  obtain ⟨-, rfl⟩ := wrapFor_eq_ok.mp hwrap
  have hdata : ∀ a ∈ said id key props, DataName a.1 := dataName_said hnames
  have hdistinct : ((said id key props).map Prod.fst).Nodup := nodup_said hnodup hown
  refine ⟨key_read_wrap hid hdata, ?_, ?_⟩
  · have hescaped : (said id key props).map (fun a => (a.1, escape a.2)) =
        ("template-wrapper".toList, id) :: ("template-key".toList, escape key) ::
          props.filterMap fun p => p.2.written?.map fun v => (kebab p.1, escape v) := by
      rw [said, List.map_cons, List.map_cons, hid.escape_eq, List.map_filterMap]
      simp only [Option.map_map, Function.comp_def]
    exact hescaped ▸ props_perm hid hdata hdistinct
  · rw [← lookup_orderName hid hdata hdistinct, wrap_eq hid,
      order_read_spanTag (plainAttribute_inFull hdata)]
    exact present_or_iff _ _

/-- A note that speaks of the order tag and of the key. -/
def notedProps : List (Text × PropValue) :=
  [("noteText".toList, .text "<i data-template-key=\"x\"> data-order-tag=b".toList),
    ("lines_2".toList, .int (-3)), ("done".toList, .bool false), ("owner".toList, .absent),
    ("orderTag".toList, .text "state".toList)]

theorem read_wrap_noted :
    InstanceId "tpl-0123456789".toList ∧ (∀ p ∈ notedProps, PropName p.1) ∧
      ∃ html, wrapFor "tpl-0123456789".toList "a&b".toList "c".toList notedProps = .ok html ∧
        (Template.read html).key = "a&amp;b".toList ∧
        (Template.read html).order = some "state".toList := by
  have hid : InstanceId "tpl-0123456789".toList := ⟨by decide, by decide⟩
  have hnames : ∀ p ∈ notedProps, PropName p.1 := by decide
  have hshort : ¬∃ p ∈ notedProps, p.2.exceedsDigits = true := by
    have hlines : Text.exceedsDigits (-3) = false := Text.exceedsDigits_of_lt (by decide)
    simp [notedProps, PropValue.exceedsDigits, hlines]
  obtain ⟨hbuilt, hread⟩ := read_wrap hid "a&b".toList "c".toList hnames (by decide +kernel)
    (by decide +kernel)
  obtain ⟨html, hwrap⟩ := hbuilt.mpr hshort
  obtain ⟨hkey, -, horder⟩ := hread html hwrap
  refine ⟨hid, hnames, html, hwrap, hkey.trans (by decide), (horder.mpr ?_).trans ?_⟩
  · have hnone : misheard orderName
        (inFull (said "tpl-0123456789".toList "a&b".toList notedProps)) = none := by decide +kernel
    rw [hnone]
    exact nofun
  · obtain ⟨-, rfl⟩ := wrapFor_eq_ok.mp hwrap
    decide +kernel

/-- A property is read as the order tag whose name ends in that of the order tag. -/
theorem dataOrderTag_taken :
    ¬ ∀ (id key inner : Text) (props : List (Text × PropValue)) (html : Text), InstanceId id →
      (∀ p ∈ props, PropName p.1) → (props.map fun p => kebab p.1).Nodup →
      (∀ p ∈ props, kebab p.1 ≠ "template-wrapper".toList ∧ kebab p.1 ≠ "template-key".toList) →
      wrapFor id key inner props = .ok html →
        (Template.read html).order =
          present ((Template.read html).props.get? "order-tag".toList) := by
  intro h
  have hid : InstanceId "tpl-0123456789".toList := ⟨by decide, by decide⟩
  have horder := h "tpl-0123456789".toList "k".toList "x".toList
    [("dataOrderTag".toList, .text "state".toList)] _ hid (by decide) (by decide +kernel)
    (by decide +kernel) rfl
  exact absurd horder (by decide +kernel)

end Markup

end TaskLine
