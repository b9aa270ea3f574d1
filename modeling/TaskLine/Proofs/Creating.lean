import TaskLine.Proofs.Replacing

/-!
# Writing a file that is new

A path can be written that leads nowhere yet. First the directories are made that it leads through,
then the text is put where it leads to, and from then on the text is found at the path
(`Files.Sound.find_write`). Making directories takes nothing away: what was found at a path before
is found there still (`Files.Grows.find_of_file`).

All this takes place in the directory that the files are about, so the path must not lead above it
(`Files.Covers`).
-/

namespace TaskLine.Files

variable {fs fs' fs'' : Files} {names start : List Text} {n : Text} {c : Content} {p : Path}

/-- A path does not lead above the directory that the files are about: there is nothing above it, or
the path is relative and leads nowhere back. -/
def Covers (fs : Files) (p : Path) : Prop :=
  fs.base = [] ∨ p.root = [] ∧ ['.', '.'] ∉ p.names

instance (fs : Files) (p : Path) : Decidable (fs.Covers p) := inferInstanceAs (Decidable (_ ∨ _))

theorem Covers.exists_start? (h : fs.Covers p) : ∃ start, fs.start? p = some start := by
  unfold start?
  rcases h with hbase | ⟨hroot, -⟩
  · rw [hbase]
    split
    · exact ⟨_, rfl⟩
    · exact ⟨_, rfl⟩
  · rw [hroot]
    exact ⟨_, rfl⟩

/-! ## More directories -/

/-- Directories were added, and nothing else is different. -/
structure Grows (fs fs' : Files) : Prop where
  base : fs'.base = fs.base
  here : fs'.here = fs.here
  files : fs'.files = fs.files
  directories : fs.directories ⊆ fs'.directories

theorem Grows.refl (fs : Files) : fs.Grows fs := ⟨rfl, rfl, rfl, List.Subset.refl _⟩

theorem Grows.trans (h : fs.Grows fs') (h' : fs'.Grows fs'') : fs.Grows fs'' where
  base := h'.base.trans h.base
  here := h'.here.trans h.here
  files := h'.files.trans h.files
  directories := fun _ hmem => h'.directories (h.directories hmem)

theorem Grows.cons (fs : Files) (names : List Text) :
    fs.Grows { fs with directories := names :: fs.directories } :=
  ⟨rfl, rfl, rfl, List.subset_cons_self ..⟩

theorem Grows.hasDirectory (h : fs.Grows fs') (hnames : fs.hasDirectory names = true) :
    fs'.hasDirectory names = true :=
  hasDirectory_iff.mpr ((hasDirectory_iff.mp hnames).imp_right fun hmem => h.directories hmem)

theorem look_eq (fs : Files) (names : List Text) :
    fs.look names = match fs.files.find? fun f => f.1 = names with
      | some f => .file f.2
      | none => if fs.hasDirectory names then .directory else .nothing := rfl

theorem hasDirectory_of_look (h : fs.look names = .directory) : fs.hasDirectory names = true := by
  rw [look_eq] at h
  split at h
  · cases h
  · split at h
    · assumption
    · cases h

theorem look_ne_tooLong : fs.look names ≠ .tooLong := by
  rw [look_eq]
  split
  · exact nofun
  · split <;> exact nofun

theorem Grows.look_of_file (h : fs.Grows fs') (hfile : fs.look names = .file c) :
    fs'.look names = .file c := by
  rw [look_eq] at hfile ⊢
  rw [h.files]
  split at hfile
  · exact hfile
  · split at hfile <;> cases hfile

theorem Grows.look_of_directory (h : fs.Grows fs') (hdir : fs.look names = .directory) :
    fs'.look names = .directory := by
  have hhas := h.hasDirectory (hasDirectory_of_look hdir)
  rw [look_eq] at hdir ⊢
  rw [h.files]
  split at hdir
  · cases hdir
  · exact if_pos hhas

theorem Grows.follow_of_file (h : fs.Grows fs') :
    ∀ names start, fs.follow start names = .file c → fs'.follow start names = .file c := by
  intro names
  induction names with
  | nil => exact fun start hfile => h.look_of_file hfile
  | cons n names ih =>
      intro start hfile
      rw [follow] at hfile ⊢
      split at hfile
      · cases hfile
      rename_i hdir
      have hdir' : fs'.hasDirectory start = true := h.hasDirectory (by simpa using hdir)
      rw [hdir', if_neg (by simp)]
      split at hfile
      · cases hfile
      rename_i hshort
      rw [if_neg hshort, h.base]
      split at hfile
      · rename_i hn
        rw [if_pos hn]
        exact ih _ hfile
      rename_i hn
      rw [if_neg hn]
      split at hfile
      · rename_i hback
        rw [if_pos hback]
        exact ih _ hfile
      · exact absurd hfile lookAbove_ne_file

theorem Grows.start?_eq (h : fs.Grows fs') (p : Path) : fs'.start? p = fs.start? p := by
  rw [start?, start?, h.base, h.here]

/-- A file that was found is found among more directories too. -/
theorem Grows.find_of_file (h : fs.Grows fs') (hfile : fs.find p = .file c) :
    fs'.find p = .file c := by
  rw [find] at hfile ⊢
  rw [h.start?_eq]
  split at hfile
  · cases hfile
  split at hfile
  · cases hfile
  rename_i hnull hlong
  rw [if_neg hnull, if_neg hlong]
  split at hfile
  · exact h.follow_of_file _ _ hfile
  · exact absurd hfile lookAbove_ne_file

/-! ## Making directories -/

/-- A directory can be added under names where there is nothing. -/
theorem Sound.cons (h : fs.Sound) (hnothing : fs.look names = .nothing)
    (hparent : fs.hasDirectory names.dropLast = true)
    (hshort : isTooLong (names.getLast?.getD []) = false) :
    Sound { fs with directories := names :: fs.directories } where
  here := (Grows.cons fs names).hasDirectory h.here
  dots := h.dots
  root := (Grows.cons fs names).look_of_directory h.root
  directory := by
    intro names' hmem
    rcases List.mem_cons.mp hmem with rfl | hmem
    · refine ⟨?_, (Grows.cons fs _).hasDirectory hparent, hshort⟩
      rw [look_eq] at hnothing ⊢
      split at hnothing
      · cases hnothing
      · rename_i hnone
        rw [hnone]
        exact if_pos (hasDirectory_iff.mpr (.inr List.mem_cons_self))
    · obtain ⟨hlook, hparent', hshort'⟩ := h.directory names' hmem
      exact ⟨(Grows.cons fs names).look_of_directory hlook,
        (Grows.cons fs names).hasDirectory hparent', hshort'⟩

/-- Names that can be followed from a directory, each of them short enough, up to a directory. -/
def Passable (fs : Files) : List Text → List Text → Prop
  | start, [] => fs.hasDirectory start = true
  | start, n :: names =>
    fs.hasDirectory start = true ∧ isTooLong n = false ∧ (n = ['.', '.'] → fs.base = []) ∧
      Passable fs (advance start n) names

theorem follow_cons (hdir : fs.hasDirectory start = true) (hshort : isTooLong n = false)
    (hn : n = ['.', '.'] → fs.base = []) :
    fs.follow start (n :: names) = fs.follow (advance start n) names := by
  rw [follow, hdir, hshort, advance]
  by_cases h : n = ['.', '.']
  · simp [h, hn h]
  · simp [h]

theorem Passable.follow_append :
    ∀ {names start : List Text}, fs.Passable start names → ∀ rest,
      fs.follow start (names ++ rest) = fs.follow (names.foldl advance start) rest
  | [], _, _, _ => rfl
  | _ :: _, _, ⟨hdir, hshort, hn, hpass⟩, rest =>
      (follow_cons hdir hshort hn).trans (hpass.follow_append rest)

theorem Passable.hasDirectory_foldl :
    ∀ {names start : List Text}, fs.Passable start names →
      fs.hasDirectory (names.foldl advance start) = true
  | [], _, h => h
  | _ :: _, _, ⟨_, _, _, hpass⟩ => hpass.hasDirectory_foldl

/-- When directories were made the names can be followed. -/
theorem Sound.makeDirectories_ok {shown : List Text → Text} :
    ∀ {names start passed : List Text} {made : Bool} {fs : Files}, fs.Sound →
      fs.hasDirectory start = true → (fs.base = [] ∨ ['.', '.'] ∉ names) →
      makeDirectories shown fs start passed made names = ⟨.ok (), fs'⟩ →
      fs'.Sound ∧ fs.Grows fs' ∧ fs'.Passable start names := by
  intro names
  induction names with
  | nil =>
      rintro start passed made fs h hdir - ⟨⟩
      exact ⟨h, .refl _, hdir⟩
  | cons n names ih =>
      intro start passed made fs h hdir hcovers hmake
      have hn : n = ['.', '.'] → fs.base = [] := fun hn =>
        hcovers.resolve_right fun hdots => hdots (hn ▸ List.mem_cons_self)
      have hcovers' : fs.base = [] ∨ ['.', '.'] ∉ names :=
        hcovers.imp_right fun hdots hmem => hdots (List.mem_cons_of_mem _ hmem)
      rw [makeDirectories] at hmake
      split at hmake
      · cases hmake
      rename_i hshort
      have hshort := Bool.eq_false_iff.mpr hshort
      have hadvance : (if n = ['.', '.'] then start.dropLast else start ++ [n]) = advance start n :=
        rfl
      rw [hadvance] at hmake
      have hgrown : ∀ {fs₁ : Files}, fs.Grows fs₁ → fs'.Sound ∧ fs₁.Grows fs' ∧
          fs'.Passable (advance start n) names →
          fs'.Sound ∧ fs.Grows fs' ∧ fs'.Passable start (n :: names) := by
        rintro fs₁ hgrows ⟨hsound, hgrows', hpass⟩
        have hall := hgrows.trans hgrows'
        exact ⟨hsound, hall, hall.hasDirectory hdir, hshort, fun heq => hall.base.trans (hn heq),
          hpass⟩
      split at hmake
      · rename_i hnothing
        have hne : n ≠ ['.', '.'] := by
          intro heq
          have hback := h.look_of_hasDirectory (h.hasDirectory_dropLast hdir)
          rw [advance, if_pos heq, hback] at hnothing
          cases hnothing
        have hnext : advance start n = start ++ [n] := if_neg hne
        have hsound := h.cons hnothing (by rw [hnext, List.dropLast_concat]; exact hdir)
          (by rw [hnext, List.getLast?_concat]; exact hshort)
        exact hgrown (.cons fs _) (ih hsound (hasDirectory_iff.mpr (.inr List.mem_cons_self))
          hcovers' hmake)
      · split at hmake <;> cases hmake
      · rename_i hlook
        exact hgrown (.refl fs) (ih h (hasDirectory_of_look hlook) hcovers' hmake)
      · exact absurd ‹_› look_ne_tooLong

/-! ## Writing -/

theorem look_put_of_ne {names' : List Text} (hne : names' ≠ names) :
    (fs.put names c).look names' = fs.look names' := by
  have hfind : (fs.put names c).files.find? (fun f => f.1 = names') =
      fs.files.find? fun f => f.1 = names' := by
    rw [put, List.find?_cons_of_neg (by simpa using hne.symm), List.find?_filter]
    refine congrArg (fun q => fs.files.find? q) (funext fun f => ?_)
    by_cases hf : f.1 = names'
    · simp [hf, hne]
    · simp [hf]
  rw [look_eq, look_eq, hfind]
  rfl

/-- A file can be put where there is no directory. -/
theorem Sound.put (h : fs.Sound) (hnames : fs.look names ≠ .directory) (c : Content) :
    (fs.put names c).Sound where
  here := h.here
  dots := h.dots
  root := (look_put_of_ne (by rintro rfl; exact hnames h.root)).trans h.root
  directory := by
    intro names' hmem
    obtain ⟨hlook, hparent, hshort⟩ := h.directory names' hmem
    exact ⟨(look_put_of_ne (by rintro rfl; exact hnames hlook)).trans hlook, hparent, hshort⟩

theorem Passable.put (h : fs.Passable start names) (names' : List Text) (c : Content) :
    (fs.put names' c).Passable start names := by
  induction names generalizing start with
  | nil => exact h
  | cons n names ih => exact ⟨h.1, h.2.1, h.2.2.1, ih h.2.2.2⟩

/-- A path that leads to no directory has a last name, which is a name of its own. -/
theorem Sound.exists_last (h : fs.Sound) (hstart : fs.start? p = some start)
    (hparents : fs.Passable start p.parent.names) (hfree : fs.look (fs.namesOf p) ≠ .directory) :
    ∃ n, n ≠ ['.', '.'] ∧ p.names = p.parent.names ++ [n] ∧
      fs.namesOf p = p.parent.names.foldl advance start ++ [n] := by
  have hdir := hparents.hasDirectory_foldl
  rw [namesOf_eq hstart (h.of_start? hstart).2] at hfree ⊢
  rcases List.eq_nil_or_concat p.names with hnil | ⟨mid, n, hnames⟩
  · rw [Path.parent, hnil] at hdir
    rw [hnil] at hfree
    exact absurd (h.look_of_hasDirectory hdir) hfree
  · rw [List.concat_eq_append] at hnames
    have hmid : p.parent.names = mid := by rw [Path.parent, hnames, List.dropLast_concat]
    rw [hmid] at hdir ⊢
    rw [hnames, List.foldl_append, List.foldl_cons, List.foldl_nil] at hfree ⊢
    have hn : n ≠ ['.', '.'] := by
      intro heq
      rw [advance, if_pos heq] at hfree
      exact hfree (h.look_of_hasDirectory (h.hasDirectory_dropLast hdir))
    exact ⟨n, hn, rfl, if_neg hn⟩

/-- When the directories were made that lead to a path, the path can be followed up to its last
name. -/
theorem Sound.makeParents_ok (h : fs.Sound) (hcovers : fs.Covers p)
    (hmake : fs.makeParents p = ⟨.ok (), fs'⟩) :
    fs'.Sound ∧ fs.Grows fs' ∧
      ∃ start, fs.start? p = some start ∧ fs'.Passable start p.parent.names := by
  obtain ⟨start, hstart⟩ := hcovers.exists_start?
  rw [makeParents] at hmake
  split at hmake
  · cases hmake
  have hstart' : fs.start? p.parent = some start := hstart
  rw [hstart', Option.getD_some] at hmake
  obtain ⟨hsound, hgrows, hparents⟩ := h.makeDirectories_ok (h.of_start? hstart).1
    (hcovers.imp_right fun hp hmem => hp.2 (List.dropLast_subset _ hmem)) hmake
  exact ⟨hsound, hgrows, start, hstart, hparents⟩

/-- What was written to a path, with the directories that lead there, is found at the path. -/
theorem Sound.find_write {fs₁ : Files} {s : Text} (h : fs.Sound) (hcovers : fs.Covers p)
    (hfind : fs.find p ≠ .tooLong) (hmake : fs.makeParents p = ⟨.ok (), fs₁⟩)
    (hwrite : fs₁.write p s = ⟨.ok (), fs'⟩) :
    fs'.Sound ∧ fs'.base = fs.base ∧ fs'.find p = .file (.text s) := by
  obtain ⟨hsound, hgrows, start, hstart, hparents⟩ := h.makeParents_ok hcovers hmake
  rw [write] at hwrite
  split at hwrite
  · cases hwrite
  rename_i hnull
  have hnull := Bool.eq_false_iff.mpr hnull
  have hpass : ¬pathLimit < Utf8.byteCount p.toText := fun hlong =>
    hfind (by rw [find, hnull, if_neg Bool.false_ne_true, if_pos hlong])
  have hstart₁ : fs₁.start? p = some start := (hgrows.start?_eq p).trans hstart
  rw [writeAt] at hwrite
  split at hwrite
  · cases hwrite
  rename_i hshort
  have hshort := Bool.eq_false_iff.mpr hshort
  split at hwrite
  · cases hwrite
  rename_i hfree
  obtain ⟨-, rfl⟩ := Attempt.mk.inj hwrite
  refine ⟨hsound.put hfree _, hgrows.base, ?_⟩
  obtain ⟨n, hn, hnames, hlast⟩ := hsound.exists_last hstart₁ hparents hfree
  rw [hlast, List.getLast?_concat, Option.getD_some] at hshort
  have hparents' := hparents.put (fs₁.namesOf p) (.text s)
  rw [find, hnull, if_neg Bool.false_ne_true, if_neg hpass,
    show (fs₁.put (fs₁.namesOf p) (.text s)).start? p = some start from hstart₁]
  dsimp only
  rw [hnames, hparents'.follow_append, follow_cons hparents'.hasDirectory_foldl hshort
    fun heq => absurd heq hn, advance, if_neg hn, ← hlast]
  exact look_put fs₁ _ _

end TaskLine.Files
