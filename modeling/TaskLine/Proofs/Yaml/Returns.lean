import Mathlib.Data.List.SplitBy
import TaskLine.Yaml.Writer

/-!
# No carriage returns

What is written of a document holds no carriage return (`Document.return_notMem_text`): a text in
which there is one is written between double quotes, and there it is escaped. So it makes no
difference to the reader that carriage returns are read as line feeds.
-/

namespace TaskLine

open Text

namespace Yaml

variable {s : Text} {c : Char} {p : Page} {w : Writing}

/-! ## Pages -/

namespace Page

/-- No carriage return was written. -/
def Clean (p : Page) : Prop := ∀ piece ∈ p.pieces, '\r' ∉ piece

theorem Clean.put (h : p.Clean) (hs : '\r' ∉ s) : (p.put s).Clean :=
  List.forall_mem_cons.mpr ⟨hs, h⟩

theorem Clean.mark (h : p.Clean) (hs : '\r' ∉ s) : (p.mark s).Clean := by
  have hspaced : '\r' ∉ ' ' :: s := by simpa using hs
  unfold Page.mark
  split
  · exact h.put hs
  · exact h.put hspaced

theorem Clean.layoutMark (h : p.Clean) (hc : c ≠ '\r') : (p.layoutMark c).Clean :=
  h.mark (by simpa using hc.symm)

theorem Clean.join (h : p.Clean) (hs : '\r' ∉ s) : (p.join s).Clean := h.put hs

theorem Clean.breakLine (h : p.Clean) (hc : c ≠ '\r') : (p.breakLine c).Clean :=
  h.put (by simpa using hc.symm)

theorem Clean.indent (h : p.Clean) (column : Nat) : (p.indent column).Clean := by
  unfold Page.indent
  extract_lets q
  have hq : q.Clean := by
    unfold q
    split
    · exact h.breakLine (by decide)
    · exact h
  split
  · refine hq.put fun hmem => ?_
    cases List.eq_of_mem_replicate hmem
  · exact hq

theorem Clean.wrap (h : p.Clean) (column : Nat) : (p.wrap column).Clean := h.indent column

theorem Clean.text (h : p.Clean) : '\r' ∉ p.text := by
  intro hmem
  obtain ⟨piece, hpiece, hmem⟩ := List.mem_flatten.mp hmem
  exact h piece (List.mem_reverse.mp hpiece) hmem

end Page

open Page (Clean)

/-! ## Scalars -/

theorem isPrintable_return : isPrintable '\r' = false := rfl

theorem return_notMem_of_printable (h : s.all isPrintable = true) : '\r' ∉ s := fun hmem =>
  absurd (List.all_eq_true.mp h _ hmem) (by rw [isPrintable_return]; exact Bool.false_ne_true)

theorem return_notMem_of_allowsPlain (h : allowsPlain s = true) : '\r' ∉ s := by
  refine return_notMem_of_printable (List.all_eq_true.mpr fun c hc => ?_)
  simp only [allowsPlain, Bool.and_eq_true] at h
  exact (Bool.and_eq_true _ _ ▸ List.all_eq_true.mp h.1.1.2 c hc).1

theorem return_notMem_of_mem_runs (h : '\r' ∉ s) {run : Text} (hrun : run ∈ runs s) : '\r' ∉ run :=
  fun hmem => h (List.flatten_splitBy _ s ▸ List.mem_flatten_of_mem hrun hmem)

theorem clean_writePlain (h : p.Clean) (hs : '\r' ∉ s) (column : Option Nat) :
    (writePlain column s p).Clean := by
  refine List.foldlRecOn _ _ (h.mark List.not_mem_nil) fun q hq run hrun => ?_
  have hrun := return_notMem_of_mem_runs hs hrun
  split
  · split
    · exact hq.wrap _
    · exact hq.join hrun
  · exact hq.join hrun

theorem return_notMem_double (h : '\r' ∉ s) : '\r' ∉ singleRuns.double s := by
  intro hmem
  obtain ⟨c, hc, hmem⟩ := List.mem_flatMap.mp hmem
  split at hmem
  · simp at hmem
  · exact h (List.mem_singleton.mp hmem ▸ hc)

theorem clean_singleRuns (column : Option Nat) (runs : List Text)
    (hruns : ∀ run ∈ runs, '\r' ∉ run) (first : Bool) (h : p.Clean) :
    (singleRuns column first runs p).Clean := by
  induction runs generalizing first p with
  | nil => exact h
  | cons run rest ih =>
      obtain ⟨hrun, hrest⟩ := List.forall_mem_cons.mp hruns
      rw [singleRuns]
      refine ih hrest false ?_
      split
      · refine Clean.indent (List.foldlRecOn _ _ ?_ fun q hq b hb => ?_) _
        · split
          · exact h.breakLine (by decide)
          · exact h
        · exact hq.breakLine fun heq => hrun (heq ▸ hb)
      · dsimp only
        split
        · split
          · exact h.indent _
          · exact h.put (return_notMem_double hrun)
        · exact h.put (return_notMem_double hrun)

theorem clean_writeSingle (h : p.Clean) (hs : '\r' ∉ s) (column : Option Nat) :
    (writeSingle column s p).Clean :=
  (clean_singleRuns column _ (fun _ => return_notMem_of_mem_runs hs) true
    (h.mark (by decide))).join (by decide)

/-! ### Double quotes -/

theorem upperHexDigit_ne_return {n : Nat} (h : n < 16) : upperHexDigit n ≠ '\r' := by
  revert n
  decide

theorem return_notMem_upperHex (width n : Nat) : '\r' ∉ upperHex width n := by
  induction width generalizing n with
  | zero => exact List.not_mem_nil
  | succ width ih =>
      rw [upperHex, List.mem_append, not_or]
      refine ⟨ih _, ?_⟩
      rw [List.mem_singleton]
      exact (upperHexDigit_ne_return (Nat.mod_lt n (by decide))).symm

theorem return_notMem_escaped {n : Nat} (h : escaped? n = some s) : '\r' ∉ s := by
  unfold escaped? at h
  split at h
  · rename_i letter hletter
    obtain rfl := Option.some.inj h
    have hne : letter ≠ '\r' := by
      unfold escapeLetter? at hletter
      split at hletter <;> cases hletter <;> decide
    simpa using hne.symm
  · split at h
    · cases h
    split at h
    · obtain rfl := Option.some.inj h
      simpa using return_notMem_upperHex 2 n
    split at h
    · obtain rfl := Option.some.inj h
      simpa using return_notMem_upperHex 4 n
    · obtain rfl := Option.some.inj h
      simpa using return_notMem_upperHex 8 n

/-- What is not escaped is no carriage return. -/
theorem ofNat_ne_return {n : Nat} (h : escaped? n = none) : Char.ofNat n ≠ '\r' := by
  intro heq
  by_cases hvalid : n.isValidChar
  · rw [Char.ofNat, dif_pos hvalid] at heq
    obtain rfl : n = 13 := congrArg Char.toNat heq
    cases h
  · rw [Char.ofNat, dif_neg hvalid] at heq
    cases heq

theorem clean_wrapDouble (h : p.Clean) (column : Nat) (next : Option Nat) :
    (wrapDouble column next p).Clean := by
  have hwrapped : ((p.put ['\\']).wrap column).Clean := (h.put (by decide)).wrap column
  unfold wrapDouble
  dsimp only
  split
  · exact hwrapped.put (by decide)
  · exact hwrapped

theorem clean_doubleFrom (column : Option Nat) (codes : List Nat) (first : Bool) {held : Text}
    (hheld : '\r' ∉ held) (h : p.Clean) : (doubleFrom column first held codes p).Clean := by
  induction codes generalizing first held p with
  | nil => exact h.put (by simpa using hheld)
  | cons n rest ih =>
      have hput : (p.put held.reverse).Clean := h.put (by simpa using hheld)
      rw [doubleFrom]
      split
      · rename_i s hs
        have hescaped := hput.put (return_notMem_escaped hs)
        refine ih false List.not_mem_nil ?_
        split
        · split
          · exact clean_wrapDouble hescaped _ _
          · exact hescaped
        · exact hescaped
      · rename_i hnone
        have hc := (ofNat_ne_return hnone).symm
        have hnext : '\r' ∉ Char.ofNat n :: held := by
          rw [List.mem_cons, not_or]
          exact ⟨hc, hheld⟩
        dsimp only
        split
        · split
          · exact ih false (by simpa using hc) (clean_wrapDouble hput _ _)
          · exact ih false hnext h
        · exact ih false hnext h

theorem clean_writeDouble (h : p.Clean) (column : Option Nat) (codes : List Nat) :
    (writeDouble column codes p).Clean :=
  (clean_doubleFrom column codes true List.not_mem_nil (h.mark (by decide))).join (by decide)

/-! ### Blocks -/

theorem return_notMem_alphabet (n : Nat) : Base64.digit n ≠ '\r' := by
  have hall : ∀ c ∈ Base64.alphabet, c ≠ '\r' := by decide
  unfold Base64.digit
  cases h : Base64.alphabet[n % 64]? with
  | none => decide
  | some c => exact hall c (List.mem_of_getElem? h)

theorem return_notMem_groups (bytes : List Nat) : ∀ g ∈ Base64.groups bytes, '\r' ∉ g := by
  fun_induction Base64.groups bytes with
  | case1 a b c rest ih =>
      refine List.forall_mem_cons.mpr ⟨?_, ih⟩
      simp [(return_notMem_alphabet _).symm]
  | case2 a b => simp [(return_notMem_alphabet _).symm]
  | case3 a => simp [(return_notMem_alphabet _).symm]
  | case4 => exact nofun

theorem return_notMem_encode (bytes : List Nat) : '\r' ∉ Base64.encode bytes := by
  have hlines : ∀ (gs : List Text) room, (∀ g ∈ gs, '\r' ∉ g) → '\r' ∉ Base64.linesOf room gs := by
    intro gs room
    fun_induction Base64.linesOf room gs with
    | case1 => simp
    | case2 => simp
    | case3 room g gs _ _ ih =>
        intro hgs
        obtain ⟨hg, hgs⟩ := List.forall_mem_cons.mp hgs
        simpa [hg] using ih hgs
    | case4 room g gs _ _ ih =>
        intro hgs
        obtain ⟨hg, hgs⟩ := List.forall_mem_cons.mp hgs
        simpa [hg] using ih hgs
  exact hlines _ _ (return_notMem_groups bytes)

theorem return_notMem_of_mem_splitOn {sep : Char} {part : Text} (h : '\r' ∉ s)
    (hpart : part ∈ splitOn sep s) : '\r' ∉ part := by
  induction s generalizing part with
  | nil => rw [List.mem_singleton.mp hpart]; exact h
  | cons c cs ih =>
      rw [List.mem_cons, not_or] at h
      rw [splitOn] at hpart
      split at hpart
      · rcases List.mem_cons.mp hpart with rfl | hpart
        · exact List.not_mem_nil
        · exact ih h.2 hpart
      · split at hpart
        · obtain rfl := List.mem_singleton.mp hpart
          simpa using h.1
        · rename_i first rest hrest
          rcases List.mem_cons.mp hpart with rfl | hpart
          · rw [List.mem_cons, not_or]
            exact ⟨h.1, ih h.2 (hrest ▸ List.mem_cons_self)⟩
          · exact ih h.2 (hrest ▸ List.mem_cons_of_mem first hpart)

theorem clean_writeBlock (h : p.Clean) (column : Nat) (lines : List Text)
    (hlines : ∀ line ∈ lines, '\r' ∉ line) : (writeBlock column lines p).Clean := by
  refine List.foldlRecOn _ _ ((h.mark (by decide)).breakLine (by decide)) fun q hq line hline => ?_
  exact ((hq.indent column).put (hlines line hline)).breakLine (by decide)

/-! ### All styles -/

/-- Neither the tag of a form nor a block holds a carriage return. -/
structure ScalarForm.Clean (f : ScalarForm) : Prop where
  tag : '\r' ∉ f.tag
  block : f.block = true → '\r' ∉ f.text

theorem ScalarForm.clean_ofValue (v : Value) : (ofValue v).Clean where
  tag := by
    have htags : ∀ tag ∈ ["!!null", "!!bool", "!!int", "!!float", "!!timestamp", "!!str",
        "!!binary"], '\r' ∉ tag.toList := by decide
    cases v with
    | null | object => exact htags "!!null" (by simp)
    | bool b => cases b <;> exact htags "!!bool" (by simp)
    | int => exact htags "!!int" (by simp)
    | float => exact htags "!!float" (by simp)
    | moment => exact htags "!!timestamp" (by simp)
    | text | codes => exact htags "!!str" (by simp)
    | bytes => exact htags "!!binary" (by simp)
  block := by
    cases v with
    | bytes bs =>
        intro _
        have htext : (ofValue (.bytes bs)).text = Base64.encode bs := by
          simp [ofValue, ofText, ScalarForm.text, Function.comp_def]
        rw [htext]
        exact return_notMem_encode bs
    | bool b => cases b <;> exact nofun
    | _ => exact nofun

theorem ScalarForm.Clean.write {f : ScalarForm} (hf : f.Clean) (h : p.Clean) (column : Option Nat) :
    (f.write column p).Clean := by
  unfold ScalarForm.write
  dsimp only
  split
  · rename_i hblock
    split
    · exact clean_writeDouble (h.mark hf.tag) column []
    · refine clean_writeBlock (h.mark hf.tag) _ _ fun line hline => ?_
      exact return_notMem_of_mem_splitOn (hf.block hblock) (List.dropLast_subset _ hline)
  split
  · rename_i hplain
    exact clean_writePlain h (return_notMem_of_allowsPlain (Bool.and_eq_true _ _ ▸ hplain).2) column
  split
  · rename_i hsingle
    refine clean_writeSingle h (return_notMem_of_printable ?_) column
    exact (Bool.and_eq_true _ _ ▸ hsingle).1
  · exact clean_writeDouble h column f.codes

/-! ## Documents -/

theorem return_notMem_anchorName (n : Nat) : '\r' ∉ anchorName n := by
  have hdigits : '\r' ∉ Text.ofNat n := by
    intro hmem
    rw [Text.ofNat, show toString n = n.repr from rfl, Nat.toList_repr] at hmem
    cases Nat.isDigit_of_mem_toDigits (by decide) (by decide) hmem
  rw [anchorName, Moment.padded, List.mem_append, List.mem_append, not_or, not_or]
  refine ⟨by decide, fun hmem => ?_, hdigits⟩
  cases List.eq_of_mem_replicate hmem

theorem return_notMem_anchor {v : Value} {name : Text} (h : w.anchor? v = some name) :
    '\r' ∉ name := by
  obtain ⟨id, -, h⟩ := Option.bind_eq_some_iff.mp h
  obtain ⟨i, -, rfl⟩ := Option.map_eq_some_iff.mp h
  exact return_notMem_anchorName _

namespace Writing

theorem clean_write (objects : Objects) (steps : Nat) (place : Place) (v : Value)
    (h : w.page.Clean) : (write objects steps place v w).page.Clean := by
  induction steps generalizing place v w with
  | zero => exact h
  | succ n ih =>
      rw [write]
      split
      · refine h.mark ?_
        cases hanchor : w.anchor? v with
        | none => decide
        | some name => simpa using return_notMem_anchor hanchor
      extract_lets w' listColumn column
      have hw' : w'.page.Clean := by
        unfold w'
        split
        · rename_i name id hanchor _
          exact h.mark (by simpa using return_notMem_anchor hanchor)
        · exact h
      split
      · split
        · exact hw'
        · exact (hw'.mark (by decide)).join (by decide)
        · refine List.foldlRecOn (motive := fun w : Writing => w.page.Clean) _ _ hw'
            fun w hw item _ => ?_
          exact ih _ _ ((hw.indent _).layoutMark (by decide))
        · extract_lets w''
          have hw'' : w''.page.Clean := by
            unfold w''
            split
            · exact hw'.mark (by decide)
            · exact hw'
          split
          · exact (hw''.mark (by decide)).join (by decide)
          · refine List.foldlRecOn (motive := fun w : Writing => w.page.Clean) _ _ hw''
              fun w hw member _ => ?_
            have hindent : (w.onPage (·.indent column)).page.Clean := hw.indent column
            have hmarked : ((w.onPage (·.indent column)).onPage (·.layoutMark '?')).page.Clean :=
              hindent.layoutMark (by decide)
            dsimp only
            refine ih _ _ ?_
            split
            · exact (ih _ _ hindent).join (by decide)
            · exact ((ih _ _ hmarked).indent column).layoutMark (by decide)
      · exact (ScalarForm.clean_ofValue _).write hw' _

end Writing

/-- No carriage return is written of a document. -/
theorem Document.return_notMem_text (d : Document) : '\r' ∉ d.text := by
  refine Clean.text (Clean.indent (Writing.clean_write _ _ _ _ ?_) 0)
  exact nofun

end Yaml

end TaskLine
