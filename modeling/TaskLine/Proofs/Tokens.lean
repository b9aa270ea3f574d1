import TaskLine.Proofs.Acceptance
import TaskLine.Proofs.Scanning
import TaskLine.Proofs.Sorting

/-!
# Finding and removing date tokens

What the scans make of a text that is strewn with spelled tokens
(`Strewn`): each shape finds its own (`Strewn.found`), in any order of shapes
they are all taken out, and nothing else is (`Strewn.remove`). What is left in
place of a token is white space, so no scan sees a token that was not there.

The tokens are found shape by shape and sorted by rank. A line has them in that
order already once it has been written (`Strewn.ordered`).
-/

namespace TaskLine.DateToken

open Text (Blank Firm)

/-! ## One scan -/

@[simp] theorem Shape.joined_chunks (sh : Shape) (s : Text) : Chunk.joined (sh.chunks s) = s :=
  Chunk.joined_scan sh.read s

theorem Shape.chunks_cons_of_none {sh : Shape} {c : Char} {s : Text}
    (h : sh.after? (c :: s) = none) : sh.chunks (c :: s) = ⟨false, [c]⟩ :: sh.chunks s := by
  rw [Shape.chunks, Chunk.scan_cons, Shape.read, h]
  simp [Shape.chunks]

theorem Shape.chunks_append_of_some {sh : Shape} {t u : Text} (ht : t ≠ [])
    (h : sh.after? (t ++ u) = some u) : sh.chunks (t ++ u) = ⟨true, t⟩ :: sh.chunks u := by
  obtain ⟨c, t, rfl⟩ := List.exists_cons_of_ne_nil ht
  rw [List.cons_append] at h
  rw [Shape.chunks, List.cons_append, Chunk.scan_cons, Shape.read, h]
  simp [Shape.chunks]

/-- A text is scanned character by character and token by token. -/
theorem Shape.scan_induction (sh : Shape) {motive : Text → Prop} (nil : motive [])
    (char : ∀ c s, sh.after? (c :: s) = none → motive s → motive (c :: s))
    (token : ∀ t u, sh.Accepts t → sh.after? (t ++ u) = some u → motive u → motive (t ++ u))
    (s : Text) : motive s := by
  match s with
  | [] => exact nil
  | c :: s =>
      cases hafter : sh.after? (c :: s) with
      | none => exact char c s hafter (scan_induction sh nil char token s)
      | some u =>
          obtain ⟨t, ht, hacc, -⟩ := Shape.after?_eq_some_iff.mp hafter
          have hlen : u.length < (c :: s).length := by
            obtain ⟨m, tail, rfl, -⟩ := hacc.exists_mark
            rw [ht, List.cons_append, List.length_cons, List.length_append]
            omega
          rw [ht] at hafter ⊢
          exact token t u hacc hafter (scan_induction sh nil char token u)
termination_by s.length
decreasing_by
  · simp
  · exact hlen

/-- Only at a mark can a token begin. -/
theorem Shape.after?_of_unmarked {c : Char} (hc : isMark c = false) (sh : Shape) (s : Text) :
    sh.after? (c :: s) = none := by
  by_contra hsome
  rw [← ne_eq, ← Option.isSome_iff_ne_none] at hsome
  have hlead := Shape.lead?_of_after? hsome
  simp only [isMark, Bool.or_eq_false_iff, decide_eq_false_iff_not] at hc
  simp [lead?, hc.1, hc.2] at hlead

theorem Shape.chunks_unmarked {s : Text} (hs : Unmarked s) (sh : Shape) (u : Text) :
    sh.chunks (s ++ u) = s.map (fun c => ⟨false, [c]⟩) ++ sh.chunks u := by
  induction s with
  | nil => rfl
  | cons c s ih =>
      have ih := ih fun d hd => hs d (List.mem_cons_of_mem _ hd)
      rw [List.cons_append,
        Shape.chunks_cons_of_none (Shape.after?_of_unmarked (hs c List.mem_cons_self) sh _), ih]
      rfl

/-- A token is one chunk to its own shape, and characters to every other. -/
theorem Shape.Spelled.chunks {sh : Shape} {t u : Text} (h : sh.Spelled t) (hu : Unglued u)
    (sh' : Shape) :
    sh'.chunks (t ++ u) =
      (if sh = sh' then [⟨true, t⟩] else t.map fun c => ⟨false, [c]⟩) ++ sh'.chunks u := by
  obtain ⟨m, tail, ht, -, htail⟩ := h.exists_mark
  split
  · rename_i heq
    subst heq
    exact Shape.chunks_append_of_some (ht ▸ List.cons_ne_nil m tail) (h.after? hu)
  · rename_i hne
    have hnone := h.after?_of_ne hu hne
    subst ht
    rw [List.cons_append] at hnone
    rw [List.cons_append, Shape.chunks_cons_of_none hnone, Shape.chunks_unmarked htail]
    rfl

/-- No date stands at the front of the text, white space apart. -/
def Dateless (u : Text) : Prop :=
  ∀ c, (Text.trimLeft u).head? = some c → Text.isAsciiDigit c = false

/-- No token begins in the text, whatever stands behind it after white space, a date apart. -/
def Quiet (s : Text) : Prop :=
  ∀ b, b <:+ s → b ≠ [] → ∀ (sh : Shape) (u : Text), Unglued u → Dateless u →
    sh.after? (b ++ u) = none

theorem Unmarked.quiet {s : Text} (h : Unmarked s) : Quiet s := by
  intro b hb hne sh u _ _
  obtain ⟨c, b, rfl⟩ := List.exists_cons_of_ne_nil hne
  exact Shape.after?_of_unmarked (h c (hb.subset List.mem_cons_self)) sh _

theorem Quiet.of_suffix {s t : Text} (h : Quiet s) (ht : t <:+ s) : Quiet t :=
  fun b hb => h b (hb.trans ht)

theorem Quiet.chunks {s u : Text} (h : Quiet s) (hu : Unglued u) (hdate : Dateless u)
    (sh : Shape) : sh.chunks (s ++ u) = s.map (fun c => ⟨false, [c]⟩) ++ sh.chunks u := by
  induction s with
  | nil => rfl
  | cons c s ih =>
      have hnone := h (c :: s) (List.suffix_refl _) (List.cons_ne_nil _ _) sh u hu hdate
      rw [List.cons_append] at hnone
      rw [List.cons_append, Shape.chunks_cons_of_none hnone,
        ih (h.of_suffix (List.suffix_cons c s))]
      rfl

theorem found_characters (s : Text) : Chunk.found (s.map fun c => ⟨false, [c]⟩) = [] := by
  simp [Chunk.found]

theorem cleared_characters (s : Text) : Chunk.cleared (s.map fun c => ⟨false, [c]⟩) = s := by
  induction s with
  | nil => rfl
  | cons c s ih =>
      rw [List.map_cons, Chunk.cleared, List.flatMap_cons, ← Chunk.cleared, ih]
      rfl

/-! ## Texts strewn with tokens -/

/-- The text has these tokens in it, each in front of white space or at the end, and no other
token anywhere; `bare` is the text with a space in place of each. -/
inductive Strewn : Text → List (Shape × Text) → Text → Prop
  | nil : Strewn [] [] []
  | char {c : Char} {s bare : Text} {ts : List (Shape × Text)} :
      isMark c = false → Strewn s ts bare → Strewn (c :: s) ts (c :: bare)
  | token {sh : Shape} {t s bare : Text} {ts : List (Shape × Text)} :
      sh.Spelled t → Unglued s → Strewn s ts bare →
        Strewn (t ++ s) ((sh, t) :: ts) (' ' :: bare)
  | quiet {q s bare : Text} {ts : List (Shape × Text)} :
      Quiet q → Unglued s → (∀ c ∈ bare, Text.isAsciiDigit c = false) → Strewn s ts bare →
        Strewn (q ++ s) ts (q ++ bare)

/-- Where no digit stands outside tokens, no date can be completed. -/
theorem Strewn.dateless {s bare : Text} {ts : List (Shape × Text)} (h : Strewn s ts bare)
    (hbare : ∀ c ∈ bare, Text.isAsciiDigit c = false) : Dateless s := by
  induction h with
  | nil =>
      intro c hc
      cases hc
  | @char c s _ _ _ _ ih =>
      have ih := ih fun d hd => hbare d (List.mem_cons_of_mem _ hd)
      by_cases hc : Text.isSpace c = true
      · have hblank : Blank [c] := Blank.singleton hc
        rwa [Dateless, ← List.singleton_append, Text.trimLeft_append hblank]
      · rw [Bool.not_eq_true] at hc
        rw [Dateless, Text.trimLeft_cons hc]
        intro d hd
        obtain rfl := Option.some.inj hd
        exact hbare _ List.mem_cons_self
  | token ht _ _ _ =>
      obtain ⟨m, tail, rfl, hm, -⟩ := ht.exists_mark
      rw [Dateless, List.cons_append, Text.trimLeft_cons (isSpace_of_isMark hm)]
      intro d hd
      obtain rfl := Option.some.inj hd
      by_contra hdigit
      rw [Bool.not_eq_false] at hdigit
      rw [isMark_eq_false hdigit (by decide)] at hm
      cases hm
  | @quiet q s _ _ _ _ _ _ ih =>
      have ih := ih fun d hd => hbare d (List.mem_append_right _ hd)
      obtain ⟨g, hg, hq⟩ := Text.exists_blank_trimLeft q
      intro c hc
      cases htrim : Text.trimLeft q with
      | nil =>
          rw [htrim, List.append_nil] at hq
          rw [hq, Text.trimLeft_append hg] at hc
          exact ih c hc
      | cons d q' =>
          have hd : Text.isSpace d = false := Text.trimLeft_head (s := q) (by rw [htrim]; rfl)
          rw [htrim] at hq
          rw [hq, List.append_assoc, Text.trimLeft_append hg, List.cons_append,
            Text.trimLeft_cons hd] at hc
          obtain rfl := Option.some.inj hc
          exact hbare _ (List.mem_append_left _ (by rw [hq]; simp))

theorem Strewn.append {a s bare : Text} {ts : List (Shape × Text)} (ha : Unmarked a)
    (h : Strewn s ts bare) : Strewn (a ++ s) ts (a ++ bare) := by
  induction a with
  | nil => exact h
  | cons c a ih =>
      have hc := ha c List.mem_cons_self
      exact .char hc (ih fun d hd => ha d (List.mem_cons_of_mem _ hd))

theorem strewn_of_unmarked {s : Text} (h : Unmarked s) : Strewn s [] s := by
  simpa using Strewn.append h .nil

/-- A row of tokens, and white space behind it. -/
theorem strewn_row {ts : List (Shape × Text)} (hts : ∀ x ∈ ts, x.1.Spelled x.2) {g : Text}
    (hg : Blank g) :
    Strewn (Text.row (ts.map Prod.snd) ++ g) ts (Text.row (ts.map fun _ => [' ']) ++ g) := by
  induction ts with
  | nil => exact strewn_of_unmarked (unmarked_of_blank hg)
  | cons x ts ih =>
      have ih := ih fun y hy => hts y (List.mem_cons_of_mem _ hy)
      simp only [List.map_cons, Text.row_cons, List.cons_append, List.append_assoc]
      refine .char (by decide) (.token (hts x List.mem_cons_self) ?_ ih)
      cases ts with
      | nil => exact unglued_of_blank hg
      | cons y ts => exact unglued_cons (by decide) _

/-- A shape finds its own tokens, in order. -/
theorem Strewn.found {s bare : Text} {ts : List (Shape × Text)} (h : Strewn s ts bare)
    (sh : Shape) : Chunk.found (sh.chunks s) = (ts.filter (·.1 = sh)).map Prod.snd := by
  induction h with
  | nil => rfl
  | @char c s _ _ hc _ ih =>
      rw [Shape.chunks_cons_of_none (Shape.after?_of_unmarked hc sh s)]
      exact ih
  | @token sh' t s _ ts ht hs _ ih =>
      rw [ht.chunks hs, Chunk.found_append, ih, List.filter_cons]
      by_cases hsh : sh' = sh
      · simp [hsh, Chunk.found]
      · simp [hsh, found_characters]
  | quiet hq hs hbare h ih =>
      rw [hq.chunks hs (h.dateless hbare), Chunk.found_append, found_characters]
      exact ih

/-- A scan for one shape takes out the tokens of that shape and leaves a strewn text. -/
theorem Strewn.cleared {s bare : Text} {ts : List (Shape × Text)} (h : Strewn s ts bare)
    (sh : Shape) :
    Strewn (Chunk.cleared (sh.chunks s)) (ts.filter (·.1 ≠ sh)) bare ∧
      (Unglued s → Unglued (Chunk.cleared (sh.chunks s))) := by
  induction h with
  | nil => exact ⟨.nil, id⟩
  | @char c s _ _ hc _ ih =>
      rw [Shape.chunks_cons_of_none (Shape.after?_of_unmarked hc sh s)]
      exact ⟨.char hc ih.1, fun h => unglued_cons (h c rfl) _⟩
  | @token sh' t s bare ts ht hs _ ih =>
      have hne : ¬Unglued (t ++ s) := by
        obtain ⟨m, tail, rfl, hm, -⟩ := ht.exists_mark
        intro h
        have hspace := h m rfl
        rw [isSpace_of_isMark hm] at hspace
        cases hspace
      refine ⟨?_, fun h => absurd h hne⟩
      rw [ht.chunks hs, Chunk.cleared_append, List.filter_cons]
      by_cases hsh : sh' = sh
      · simp only [hsh, if_true, ne_eq, not_true_eq_false, decide_false]
        exact .char (by decide) ih.1
      · simp only [hsh, if_false, ne_eq, not_false_eq_true, decide_true, if_true,
          cleared_characters]
        exact .token ht (ih.2 hs) ih.1
  | @quiet q s bare ts hq hs hbare h ih =>
      rw [hq.chunks hs (h.dateless hbare), Chunk.cleared_append, cleared_characters]
      refine ⟨.quiet hq (ih.2 hs) hbare ih.1, fun hglue => ?_⟩
      cases q with
      | nil => exact ih.2 hglue
      | cons c q => exact unglued_cons (hglue c rfl) _

theorem Strewn.foldl_cleared {s bare : Text} {ts : List (Shape × Text)} (h : Strewn s ts bare)
    (shs : List Shape) :
    Strewn (shs.foldl (fun t sh => Chunk.cleared (sh.chunks t)) s)
      (ts.filter (·.1 ∉ shs)) bare := by
  induction shs generalizing s ts with
  | nil => simpa using h
  | cons sh shs ih =>
      have := ih (h.cleared sh).1
      rw [List.filter_filter] at this
      rw [List.foldl_cons]
      refine (congrArg (Strewn _ · bare) (List.filter_congr fun x _ => ?_)).mpr this
      simp [Bool.and_comm]

theorem Shape.mem_all (sh : Shape) : sh ∈ Shape.all := by cases sh <;> decide

/-- All tokens are taken out, and nothing else is. -/
theorem Strewn.remove {s bare : Text} {ts : List (Shape × Text)} (h : Strewn s ts bare) :
    remove s = bare := by
  have hall := h.foldl_cleared Shape.all
  rw [List.filter_eq_nil_iff.mpr (by simp [Shape.mem_all])] at hall
  have heq : ∀ {s bare : Text} {ts : List (Shape × Text)}, Strewn s ts bare → ts = [] →
      s = bare := by
    intro s bare ts h
    induction h with
    | nil => exact fun _ => rfl
    | char _ _ ih => exact fun hts => congrArg _ (ih hts)
    | token => exact fun hts => absurd hts (List.cons_ne_nil _ _)
    | quiet _ _ _ _ ih => exact fun hts => congrArg _ (ih hts)
  exact heq hall rfl

/-! ## Tokens and wrappers

The hidden part of a token stands in tags of its own, which are no wrappers. -/

open Markup (Passes WholeTag opensWrapper)

theorem wholeTag_hiddenOpen : WholeTag hiddenOpen := ⟨⟨_, rfl⟩, fun _ => rfl⟩

theorem wholeTag_hiddenClose : WholeTag hiddenClose := ⟨⟨_, rfl⟩, fun _ => rfl⟩

theorem passes_hiddenOpen {s : Text} (h : Passes s) : Passes (hiddenOpen ++ s) :=
  .tag wholeTag_hiddenOpen (by decide) h

theorem passes_hiddenClose {s : Text} (h : Passes s) : Passes (hiddenClose ++ s) :=
  .tag wholeTag_hiddenClose (by decide) h

theorem SpacedDate.passes {r : Text} (h : SpacedDate r) : Passes r := by
  obtain ⟨g, d, hg, -, hd, rfl⟩ := h
  refine .of_not_mem fun hlt => ?_
  rcases List.mem_append.mp hlt with hlt | hlt
  · have := hg _ hlt
    cases this
  · rcases hd.mem hlt with h | h <;> cases h

/-- The scanner for wrappers passes over a token. -/
theorem Shape.Spelled.passes {sh : Shape} {t : Text} (h : sh.Spelled t) : Passes t := by
  have hname : ∀ {mark}, '<' ∉ mark → SpelledName mark t → Passes t := by
    rintro mark hmark ⟨name, r, hname, -, hr, rfl⟩
    exact (Passes.of_not_mem hmark).append
      (passes_hiddenOpen ((Passes.of_not_mem hname.2).append (passes_hiddenClose hr.passes)))
  have hfolders : ∀ {mark}, '<' ∉ mark → SpelledFolders mark t → Passes t := by
    rintro mark hmark ⟨list, hlist, rfl⟩
    refine (Passes.of_not_mem hmark).append ((Passes.of_not_mem (by decide)).append
      (passes_hiddenOpen (.char (by decide) ((Passes.of_not_mem hlist.2).append ?_))))
    exact .char (by decide) (by simpa using passes_hiddenClose .nil)
  cases sh with
  | dated =>
      obtain ⟨m, r, hm, hr, rfl⟩ := h
      refine .char ?_ hr.passes
      rintro rfl
      cases hm
  | snoozeName => exact hname (by decide) h
  | snoozeAllName => exact hname (by decide) h
  | snoozeFolders => exact hfolders (by decide) h
  | snoozeAllFolders => exact hfolders (by decide) h
  | snooze =>
      obtain rfl := h
      exact .of_not_mem (by decide)
  | snoozeAll =>
      obtain rfl := h
      exact .of_not_mem (by decide)

/-! ## The order of tokens -/

/-- The tokens of all shapes, each with its shape, shape by shape. -/
def tagged (s : Text) : List (Shape × Text) :=
  Shape.all.flatMap fun sh => (Chunk.found (sh.chunks s)).map (sh, ·)

/-- Whether a token may stand before another. -/
def atMostRank (a b : Shape × Text) : Bool := a.1.rank a.2 ≤ b.1.rank b.2

/-- Tokens by rank, and within a rank by the order of the shapes. -/
def InOrder (ts : List (Shape × Text)) : Prop :=
  ts.Pairwise fun a b =>
    atMostRank a b = true ∧
      (atMostRank b a = true → Shape.all.idxOf a.1 ≤ Shape.all.idxOf b.1)

theorem found_eq_map (s : Text) : found s = (tagged s).map fun x => (x.1.rank x.2, x.2) := by
  simp only [found, tagged, List.map_flatMap, List.map_map]
  rfl

theorem ordered_eq_map (s : Text) : ordered s = (sortBy atMostRank (tagged s)).map Prod.snd := by
  rw [ordered, found_eq_map, sortBy_map, List.map_map]
  rfl

theorem comparison_atMostRank : Comparison atMostRank where
  total a b := by
    simp only [atMostRank, decide_eq_true_eq]
    omega
  trans := by
    simp only [atMostRank, decide_eq_true_eq]
    omega

theorem pairwise_tagged (s : Text) :
    (tagged s).Pairwise fun a b => Shape.all.idxOf a.1 ≤ Shape.all.idxOf b.1 := by
  refine List.pairwise_flatMap.mpr ⟨fun sh _ => ?_, ?_⟩
  · rw [List.pairwise_map]
    exact List.pairwise_of_forall fun _ _ => Nat.le_refl _
  · have hidx : Shape.all.Pairwise fun a b => Shape.all.idxOf a ≤ Shape.all.idxOf b := by decide
    refine hidx.imp fun hab x hx y hy => ?_
    obtain ⟨_, _, rfl⟩ := List.mem_map.mp hx
    obtain ⟨_, _, rfl⟩ := List.mem_map.mp hy
    exact hab

/-- The tokens of a line, sorted by rank, are in order. -/
theorem inOrder_sortBy_tagged (s : Text) : InOrder (sortBy atMostRank (tagged s)) :=
  pairwise_sortBy_of_pairwise comparison_atMostRank (pairwise_tagged s)

theorem Strewn.tagged {s bare : Text} {ts : List (Shape × Text)} (h : Strewn s ts bare) :
    tagged s = Shape.all.flatMap fun sh => ts.filter (·.1 = sh) := by
  refine List.flatMap_congr fun sh _ => ?_
  rw [h.found, List.map_map]
  refine (List.map_congr_left fun x hx => ?_).trans (List.map_id _)
  have : x.1 = sh := by simpa using List.of_mem_filter hx
  exact Prod.ext this.symm rfl

/-- Tokens that stand in order are found in order. -/
theorem Strewn.ordered {s bare : Text} {ts : List (Shape × Text)} (h : Strewn s ts bare)
    (hts : InOrder ts) : ordered s = ts.map Prod.snd := by
  rw [ordered_eq_map, h.tagged]
  exact congrArg _ (sortBy_buckets (by decide) (fun x _ => x.1.mem_all) hts)

end TaskLine.DateToken
