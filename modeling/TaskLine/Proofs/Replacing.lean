import TaskLine.Files.Store

/-!
# Writing over a file

A file that a path leads to can be written over, and what was written is then found at the path
(`Files.Sound.find_replace`). There must be room beside it for a draft with a longer name
(`Files.HasRoom`), or the draft cannot be made. Following a path goes from directory to directory,
and a path with double dots in it is written without them: in files that are sound both lead to the
same place, and all that lies on the way is there.
-/

namespace TaskLine.Files

variable {fs : Files} {names start : List Text} {c c' : Content} {p : Path}

/-- The directories are there with all that they lie in, and no file stands in their place. -/
structure Sound (fs : Files) : Prop where
  here : fs.hasDirectory fs.here = true
  dots : ['.', '.'] ∉ fs.here
  root : fs.look [] = .directory
  directory : ∀ names ∈ fs.directories, fs.look names = .directory ∧
    fs.hasDirectory names.dropLast = true ∧ isTooLong (names.getLast?.getD []) = false

instance (fs : Files) : Decidable fs.Sound :=
  decidable_of_iff ((fs.hasDirectory fs.here = true ∧ ['.', '.'] ∉ fs.here) ∧
    fs.look [] = .directory ∧ ∀ names ∈ fs.directories, fs.look names = .directory ∧
      fs.hasDirectory names.dropLast = true ∧ isTooLong (names.getLast?.getD []) = false)
    ⟨fun ⟨⟨a, b⟩, c, d⟩ => ⟨a, b, c, d⟩, fun ⟨a, b, c, d⟩ => ⟨⟨a, b⟩, c, d⟩⟩

/-! ## Directories -/

theorem hasDirectory_iff : fs.hasDirectory names = true ↔ names = [] ∨ names ∈ fs.directories := by
  rw [hasDirectory, Bool.or_eq_true, List.isEmpty_iff, List.contains_iff_mem]

theorem Sound.look_of_hasDirectory (h : fs.Sound) (hnames : fs.hasDirectory names = true) :
    fs.look names = .directory := by
  rcases hasDirectory_iff.mp hnames with rfl | hmem
  · exact h.root
  · exact (h.directory names hmem).1

theorem Sound.hasDirectory_dropLast (h : fs.Sound) (hnames : fs.hasDirectory names = true) :
    fs.hasDirectory names.dropLast = true := by
  rcases hasDirectory_iff.mp hnames with rfl | hmem
  · rfl
  · exact (h.directory names hmem).2.1

theorem Sound.not_hasDirectory (h : fs.Sound) (hnames : fs.look names = .file c) :
    fs.hasDirectory names = false :=
  Bool.eq_false_iff.mpr fun hdir => by simp [h.look_of_hasDirectory hdir] at hnames

/-- What a directory lies in is a directory too, with a name that is not too long. -/
theorem Sound.hasDirectory_append (h : fs.Sound) :
    ∀ names rest, fs.hasDirectory (names ++ rest) = true → fs.hasDirectory names = true := by
  intro names rest hdir
  induction hlen : rest.length generalizing rest with
  | zero => rwa [List.eq_nil_of_length_eq_zero hlen, List.append_nil] at hdir
  | succ k ih =>
      have hne : rest ≠ [] := by
        rintro rfl
        cases hlen
      have hparent := h.hasDirectory_dropLast hdir
      rw [List.dropLast_append_of_ne_nil hne] at hparent
      exact ih rest.dropLast hparent (by rw [List.length_dropLast, hlen, Nat.add_sub_cancel])

/-- Where there are directories already none has to be made. -/
theorem Sound.makeDirectories_eq (h : fs.Sound) (shown : List Text → Text) :
    ∀ names start passed, ['.', '.'] ∉ names → fs.hasDirectory (start ++ names) = true →
      makeDirectories shown fs start passed false names = .done fs := by
  intro names
  induction names with
  | nil => exact fun start passed _ _ => rfl
  | cons n names ih =>
      intro start passed hdots hdir
      obtain ⟨hn, hdots⟩ := List.ne_and_not_mem_of_not_mem_cons hdots
      rw [List.append_cons] at hdir
      have hnext := h.hasDirectory_append (start ++ [n]) names hdir
      have hshort : isTooLong n = false := by
        rcases hasDirectory_iff.mp hnext with hnil | hmem
        · exact absurd hnil (by simp)
        · simpa using (h.directory _ hmem).2.2
      rw [makeDirectories, hshort, if_neg Bool.false_ne_true, if_neg (Ne.symm hn),
        h.look_of_hasDirectory hnext]
      exact ih (start ++ [n]) (passed ++ [n]) hdots hdir

/-! ## Following a path -/

/-- One more name behind names without double dots; double dots lead back. -/
def advance (names : List Text) (n : Text) : List Text :=
  if n = ['.', '.'] then names.dropLast else names ++ [n]

theorem dots_notMem_foldl (rest : List Text) (hstart : ['.', '.'] ∉ start) :
    ['.', '.'] ∉ rest.foldl advance start := by
  induction rest generalizing start with
  | nil => exact hstart
  | cons n rest ih =>
      refine ih ?_
      unfold advance
      split
      · exact fun hmem => hstart (List.dropLast_subset _ hmem)
      · rename_i hn
        simpa using ⟨hstart, Ne.symm hn⟩

theorem foldl_advance {rest : List Text} (hdots : ['.', '.'] ∉ rest) :
    rest.foldl advance start = start ++ rest := by
  induction rest generalizing start with
  | nil => exact (List.append_nil _).symm
  | cons n rest ih =>
      obtain ⟨hn, hdots⟩ := List.ne_and_not_mem_of_not_mem_cons hdots
      rw [List.foldl_cons, ih hdots, advance, if_neg (Ne.symm hn), List.append_assoc]
      rfl

/-- What a path leads to is found by going from name to name from where it starts. -/
theorem namesOf_eq (hstart : fs.start? p = some start) (hdots : ['.', '.'] ∉ start) :
    fs.namesOf p = p.names.foldl advance start := by
  rw [namesOf, hstart, Option.getD_some]
  exact (List.foldl_append).trans (congrArg (p.names.foldl advance ·) (foldl_advance hdots))

theorem Sound.of_start? (h : fs.Sound) (hstart : fs.start? p = some start) :
    fs.hasDirectory start = true ∧ ['.', '.'] ∉ start := by
  unfold start? at hstart
  split at hstart
  · exact Option.some.inj hstart ▸ ⟨h.here, h.dots⟩
  · split at hstart
    · exact Option.some.inj hstart ▸ ⟨rfl, List.not_mem_nil⟩
    · cases hstart

theorem lookAbove_ne_file : lookAbove names ≠ .file c := by
  unfold lookAbove
  split
  · exact nofun
  · split <;> exact nofun

/-- A path that leads to a file leads through directories, and leads there whatever files there
are. -/
theorem follow_of_file :
    ∀ rest start, fs.follow start rest = .file c →
      (∀ files, { fs with files }.follow start rest =
        { fs with files }.look (rest.foldl advance start)) ∧
      (rest = [] ∨ ∃ names n, fs.hasDirectory names = true ∧ isTooLong n = false ∧
        rest.foldl advance start = advance names n) := by
  intro rest
  induction rest with
  | nil => exact fun start _ => ⟨fun files => rfl, .inl rfl⟩
  | cons n rest ih =>
      intro start hfile
      have hstep : ∀ files, { fs with files }.follow start (n :: rest) =
          if !fs.hasDirectory start then .nothing
          else if isTooLong n then .tooLong
          else if n ≠ ['.', '.'] ∨ (!start.isEmpty || fs.base.isEmpty) = true then
            { fs with files }.follow (advance start n) rest
          else lookAbove rest := by
        intro files
        rw [follow, advance]
        by_cases hn : n = ['.', '.'] <;> simp [hn, hasDirectory]
      have hfile := (hstep fs.files).symm.trans hfile
      split at hfile
      · cases hfile
      split at hfile
      · cases hfile
      rename_i hdir hshort
      have hback : n ≠ ['.', '.'] ∨ (!start.isEmpty || fs.base.isEmpty) = true :=
        Classical.not_not.mp fun hback => lookAbove_ne_file ((if_neg hback).symm.trans hfile)
      rw [if_pos hback] at hfile
      obtain ⟨hlook, hlast⟩ := ih (advance start n) hfile
      refine ⟨fun files => ?_, .inr ?_⟩
      · rw [hstep, if_neg hdir, if_neg hshort, if_pos hback]
        exact hlook files
      · rcases hlast with rfl | hlast
        · exact ⟨start, n, by simpa using hdir, by simpa using hshort, rfl⟩
        · exact hlast

theorem look_put (fs : Files) (names : List Text) (c : Content) :
    (fs.put names c).look names = .file c := by
  simp [look, put]

/-! ## Writing -/

/-- A path at which there is a file can be followed from where it starts. -/
theorem exists_start_of_file (hfile : fs.find p = .file c) :
    p.hasNull = false ∧ ¬pathLimit < Utf8.byteCount p.toText ∧
      ∃ start, fs.start? p = some start ∧ fs.follow start p.names = .file c := by
  have hnull : p.hasNull = false := Bool.eq_false_iff.mpr fun hnull => by
    rw [find, if_pos hnull] at hfile
    cases hfile
  rw [find, hnull, if_neg Bool.false_ne_true] at hfile
  split at hfile
  · cases hfile
  · rename_i hpass
    cases hstart : fs.start? p with
    | none => exact absurd (hstart ▸ hfile) lookAbove_ne_file
    | some start => exact ⟨hnull, hpass, start, rfl, by simpa [hstart] using hfile⟩

/-- The names of a file are those of its directory and its own, and none of them goes up. -/
theorem Sound.exists_namesOf_eq (h : fs.Sound) (hstart : fs.start? p = some start)
    (hfollow : fs.follow start p.names = .file c) :
    ∃ names n, fs.hasDirectory names = true ∧ isTooLong n = false ∧ ['.', '.'] ∉ names ∧
      fs.namesOf p = names ++ [n] := by
  obtain ⟨hdir, hdots⟩ := h.of_start? hstart
  obtain ⟨hlook, hlast⟩ := follow_of_file p.names start hfollow
  have hclean := dots_notMem_foldl p.names hdots
  have hfile := h.not_hasDirectory ((hlook fs.files).symm.trans hfollow)
  rw [namesOf_eq hstart hdots]
  rcases hlast with hnil | ⟨names, n, hparent, hshort, heq⟩
  · -- where a path starts there is a directory
    rw [hnil, List.foldl_nil, hdir] at hfile
    cases hfile
  · rw [heq, advance] at hfile hclean ⊢
    split at hfile
    · rw [h.hasDirectory_dropLast hparent] at hfile
      cases hfile
    · rename_i hn
      rw [if_neg hn] at hclean ⊢
      exact ⟨names, n, hparent, hshort, fun hmem => hclean (List.mem_append_left _ hmem), rfl⟩

/-- There is room for the draft of the file at a path: neither its name nor its absolute path is too
long. -/
structure HasRoom (fs : Files) (p : Path) : Prop where
  name : isTooLong (draftName ((fs.namesOf p).getLast?.getD [])) = false
  path : fs.fits (draft (fs.namesOf p)) = true

instance (fs : Files) (p : Path) : Decidable (fs.HasRoom p) :=
  decidable_of_iff (_ ∧ _) ⟨fun ⟨a, b⟩ => ⟨a, b⟩, fun ⟨a, b⟩ => ⟨a, b⟩⟩

theorem absolute_concat (fs : Files) (names : List Text) (n : Text) :
    fs.absolute (names ++ [n]) = fs.absolute names ++ '/' :: n := by
  unfold absolute
  generalize fs.base = first
  induction names generalizing first with
  | nil => rw [List.nil_append, Text.join_cons_cons, Text.join_singleton, Text.join_singleton]; rfl
  | cons m names ih =>
      rw [List.cons_append, Text.join_cons_cons, Text.join_cons_cons, ih, List.append_assoc,
        List.append_assoc]

theorem byteCount_le_append (s t : Text) : Utf8.byteCount s ≤ Utf8.byteCount (s ++ t) := by
  rw [Utf8.byteCount, Utf8.byteCount, List.foldl_append]
  generalize s.foldl (fun n c => n + c.utf8Size) 0 = n
  induction t generalizing n with
  | nil => exact Nat.le_refl n
  | cons c t ih => exact Nat.le_trans (Nat.le_add_right n c.utf8Size) (ih _)

/-- Where there is room for the draft the directory can be reached. -/
theorem HasRoom.fits_dropLast (h : fs.HasRoom p) : fs.fits (fs.namesOf p).dropLast = true := by
  have hpath := of_decide_eq_true h.path
  rw [draft, absolute_concat] at hpath
  exact decide_eq_true (Nat.le_trans (byteCount_le_append _ _) hpath)

/-- A file that is there can be written over. -/
theorem Sound.find_replace (h : fs.Sound) (hfile : fs.find p = .file c) (hroom : fs.HasRoom p)
    (s : Text) :
    ∃ files, fs.replace p s = ⟨.ok (), files⟩ ∧ files.find p = .file (.text s) := by
  obtain ⟨hnull, hpass, start, hstart, hfollow⟩ := exists_start_of_file hfile
  obtain ⟨names, n, hdir, hshort, hclean, hlast⟩ := h.exists_namesOf_eq hstart hfollow
  have hlook := (follow_of_file p.names start hfollow).1
  have hnames := namesOf_eq hstart (h.of_start? hstart).2
  have hthere : fs.look (fs.namesOf p) = .file c := by
    rw [hnames, ← hlook fs.files, hfollow]
  have hmade : makeDirectories fs.absolute fs [] [] false (fs.namesOf p).dropLast = .done fs := by
    rw [hlast, List.dropLast_concat]
    exact h.makeDirectories_eq _ names [] [] hclean hdir
  have hwrite : ∀ shown, writeAt shown fs (fs.namesOf p) s =
      .done (fs.put (fs.namesOf p) (.text s)) := by
    intro shown
    rw [writeAt, hthere, hlast, List.getLast?_concat, Option.getD_some, hshort,
      if_neg Bool.false_ne_true]
  refine ⟨fs.put (fs.namesOf p) (.text s), ?_, ?_⟩
  · rw [replace, hnull, if_neg Bool.false_ne_true, hroom.fits_dropLast, hmade]
    simp only [Attempt.andThen, Attempt.done, hroom.name, hroom.path, hwrite]
    rfl
  · have hput := hlook ((fs.put (fs.namesOf p) (.text s)).files)
    rw [← hnames] at hput
    rw [find, hnull, if_neg Bool.false_ne_true, if_neg hpass,
      show (fs.put (fs.namesOf p) (.text s)).start? p = some start from hstart]
    exact hput.trans (look_put fs _ _)

end TaskLine.Files
