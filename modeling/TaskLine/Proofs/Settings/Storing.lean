import TaskLine.Proofs.Creating
import TaskLine.Proofs.Settings.Given

/-!
# Storing a mapping

A configuration that was saved is loaded again (`Config.Holds.save`), provided that what its library
writes of it reads back as the same mapping (`Yaml.Library.ReadsBack`). Saving can also fail. Where
the fault is one of the library, or of a path that no file can have, nothing is written, and what is
loaded is what was loaded before (`Config.Holds.load_of_fault`).
-/

namespace TaskLine

open Yaml

namespace Files

variable {fs fs' : Files} {p : Path} {s : Text} {e : FileFault}

/-! ## Paths that no file can have -/

theorem makeDirectories_ne_null {shown : List Text → Text} {names start passed : List Text}
    {made : Bool} (h : makeDirectories shown fs start passed made names = ⟨.error e, fs'⟩) :
    e ≠ .nullCharacter := by
  induction names generalizing fs start passed made with
  | nil => cases h
  | cons n names ih =>
      rw [makeDirectories] at h
      split at h
      · cases h
        exact FileFault.noConfusion
      split at h
      · exact ih h
      · split at h
        · cases h
          exact FileFault.noConfusion
        · cases h
          exact FileFault.noConfusion
      · exact ih h
      · exact ih h

theorem hasNull_of_makeParents (h : fs.makeParents p = ⟨.error .nullCharacter, fs'⟩) :
    p.hasNull = true := by
  rw [makeParents] at h
  split at h
  · rename_i hnull
    obtain ⟨n, hn, hc⟩ := List.any_eq_true.mp hnull
    exact List.any_eq_true.mpr ⟨n, List.dropLast_subset _ hn, hc⟩
  · exact absurd rfl (makeDirectories_ne_null h)

theorem hasNull_of_write (h : fs.write p s = ⟨.error .nullCharacter, fs'⟩) : p.hasNull = true := by
  rw [write] at h
  split at h
  · assumption
  · unfold writeAt at h
    split at h
    · cases h
    · split at h <;> cases h

theorem find_of_hasNull (fs : Files) (h : p.hasNull = true) : fs.find p = .nothing := if_pos h

end Files

namespace Config

variable {fs fs' : Files} {p : Path} {c d : Config} {fault : OptionFault} {key written : Text}
  {v : Setting} {yaml : Library} {e : Yaml.Document}

/-! ## Loading -/

/-- What is loaded depends on what is found at the path only. -/
theorem load_congr (h : fs'.find p = fs.find p) : load fs' p yaml = load fs p yaml := by
  simp only [load, Files.has, Files.read, h]

theorem find_of_load (h : (load fs p yaml).2 = .ok c) :
    fs.find p ≠ .tooLong ∧ (c = {} ∨ ∃ content, fs.find p = .file content) := by
  cases hfind : fs.find p with
  | file content => exact ⟨nofun, .inr ⟨content, rfl⟩⟩
  | directory | nothing =>
      simp only [load, Files.has, Files.read, hfind] at h
      exact ⟨nofun, .inl (Except.ok.inj h).symm⟩
  | tooLong =>
      simp only [load, Files.has, hfind] at h
      cases h

theorem plainBreaks_of_notMem {s : Text} (h : '\r' ∉ s) : plainBreaks s = s := by
  fun_induction plainBreaks s with
  | case1 => exact absurd List.mem_cons_self h
  | case2 => exact absurd List.mem_cons_self h
  | case3 c cs _ _ ih => rw [ih fun hmem => h (List.mem_cons_of_mem c hmem)]
  | case4 => rfl

/-- A document that was written is loaded as its library reads it. -/
theorem load_written (hyaml : yaml.Lawful) (hdump : yaml.dump d.document = .ok written)
    (hread : yaml.load written = some e) (hfile : fs.find p = .file (.text written)) :
    load fs p yaml = ([], .ok (ofDocument e)) := by
  simp only [load, Files.has, Files.read, hfile, plainBreaks_of_notMem (hyaml.lineFeeds hdump),
    hread]

/-! ## Saving -/

theorem isEmpty_put (key : Text) (v : Setting) (c : Config) :
    (c.put key v).entries.isEmpty = false :=
  List.isEmpty_eq_false_iff.mpr (List.ne_nil_of_mem (Value.mem_putEntry.mpr (.inl rfl)))

/-- What saving a mapping can do: a directory cannot be made, or the mapping cannot be written, or
the file is written, which can go wrong too. -/
theorem save_cases {result : Except OptionFault Unit} (hd : d.entries.isEmpty = false)
    (h : save fs p d yaml = ⟨result, fs'⟩) :
    (∃ f, fs.makeParents p = ⟨.error f, fs'⟩ ∧ result = .error (.file f)) ∨
    ∃ fs₁, fs.makeParents p = ⟨.ok (), fs₁⟩ ∧
      ((∃ f, yaml.dump d.document = .error f ∧ fs' = fs₁ ∧ result = .error (.dump f)) ∨
        ∃ s r, yaml.dump d.document = .ok s ∧ fs₁.write p s = ⟨r, fs'⟩ ∧
          result = r.mapError .file) := by
  rw [save, hd, if_neg Bool.false_ne_true] at h
  cases hmake : fs.makeParents p with
  | mk made fs₁ =>
      rw [hmake] at h
      cases made with
      | error f =>
          obtain ⟨rfl, rfl⟩ := Attempt.mk.inj h
          exact .inl ⟨f, rfl, rfl⟩
      | ok =>
          refine .inr ⟨fs₁, rfl, ?_⟩
          cases hdump : yaml.dump d.document with
          | error f =>
              rw [hdump] at h
              obtain ⟨rfl, rfl⟩ := Attempt.mk.inj h
              exact .inl ⟨f, rfl, rfl, rfl⟩
          | ok s =>
              rw [hdump] at h
              obtain ⟨rfl, rfl⟩ := Attempt.mk.inj h
              exact .inr ⟨s, _, rfl, rfl, rfl⟩

/-- The configuration that a path holds, in files that the path does not lead out of. -/
structure Holds (fs : Files) (p : Path) (yaml : Library) (c : Config) : Prop where
  sound : fs.Sound
  covers : fs.Covers p
  load : (Config.load fs p yaml).2 = .ok c

/-- A configuration that was saved is what the file holds. -/
theorem Holds.save (h : Holds fs p yaml c) (hyaml : yaml.Lawful) (hd : d.entries.isEmpty = false)
    (hsave : Config.save fs p d yaml = ⟨.ok (), fs'⟩) (hread : yaml.ReadsBack d.document) :
    ∃ d', Holds fs' p yaml d' ∧ d'.Same d := by
  obtain ⟨f, -, hresult⟩ | ⟨fs₁, hmake, ⟨f, -, -, hresult⟩ | ⟨s, result, hdump, hwrite, hresult⟩⟩ :=
    save_cases hd hsave
  · cases hresult
  · cases hresult
  cases result with
  | error => cases hresult
  | ok =>
      obtain ⟨hsound, hbase, hfile⟩ :=
        h.sound.find_write h.covers (find_of_load h.load).1 hmake hwrite
      obtain ⟨e, hload, hsame⟩ := hread s hdump
      refine ⟨ofDocument e, ⟨hsound, ?_, ?_⟩, same_ofDocument hsame⟩
      · rw [Files.Covers, hbase]
        exact h.covers
      · rw [load_written hyaml hdump hload hfile]

/-- If a mapping cannot be written, or its path is one that no file can have, then what is loaded is
what was loaded before. -/
theorem Holds.load_of_fault (h : Holds fs p yaml c) (hyaml : yaml.Lawful) (hv : v.Plain)
    (hsave : Config.save fs p (c.put key v) yaml = ⟨.error fault, fs'⟩)
    (hfault : ∀ f, fault = .file f → f = .nullCharacter) :
    (p.hasNull = true ∨ ∃ f, yaml.dump (c.put key v).document = .error f) ∧
      Config.load fs' p yaml = Config.load fs p yaml := by
  have hnull : p.hasNull = true → Config.load fs' p yaml = Config.load fs p yaml := fun hnull =>
    load_congr ((fs'.find_of_hasNull hnull).trans (fs.find_of_hasNull hnull).symm)
  obtain ⟨f, hmake, hresult⟩ |
    ⟨fs₁, hmake, ⟨f, hdump, rfl, hresult⟩ | ⟨s, result, -, hwrite, hresult⟩⟩ :=
    save_cases (isEmpty_put key v c) hsave
  · obtain rfl := hfault f (Except.error.inj hresult)
    have hp := Files.hasNull_of_makeParents hmake
    exact ⟨.inl hp, hnull hp⟩
  · refine ⟨.inr ⟨f, hdump⟩, ?_⟩
    -- a single member can be written, so there were others, in a file, and it stays
    rcases (find_of_load h.load).2 with rfl | ⟨content, hfile⟩
    · obtain ⟨s, hs⟩ := hyaml.single key 0 hv
      cases hdump.symm.trans hs
    · obtain ⟨-, hgrows, -⟩ := h.sound.makeParents_ok h.covers hmake
      exact load_congr ((hgrows.find_of_file hfile).trans hfile.symm)
  · cases result with
    | ok => cases hresult
    | error f =>
        obtain rfl := hfault f (Except.error.inj hresult)
        have hp := Files.hasNull_of_write hwrite
        exact ⟨.inl hp, hnull hp⟩

end Config

end TaskLine
