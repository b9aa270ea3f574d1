import TaskLine.Command.Run
import TaskLine.Proofs.Settings.Storing

/-!
# Changing settings one after the other

The items of a command are carried out one after the other, and each of them is stored before the
next one is looked at. So a command that ends well has made all changes
(`Surroundings.configure_outcome`), the last one of each key counts, and what no item is about is
read as before. A command that ends badly has made the changes of the items before the one that was
refused. Only if that is the first one is everything as it was before
(`Surroundings.configure_not_atomic`).

The library that reads and writes the configuration is any that keeps to the laws
(`Yaml.Library.Lawful`), and each mapping that is written has to read back
(`Yaml.Library.ReadsBack`).
-/

namespace TaskLine

open Yaml

namespace Config

variable {fs fs' : Files} {p : Path} {c c' d e : Config} {item key : Text} {items : List Text}
  {v : Setting} {changes : List (Text × Setting)} {yaml : Library}

/-! ## Items -/

/-- The change that an item asks for, if it is one that can be made. -/
def change? (item : Text) : Option (Text × Setting) :=
  (Text.splitAt? '=' item).bind fun kv =>
    (valueFor (keyOf kv.1) kv.2).toOption.map fun v => (keyOf kv.1, v)

/-- An item is refused for a configuration and its path: it asks for no change that can be made, or
for one that cannot be written there. -/
def Refuses (c : Config) (p : Path) (yaml : Library) (item : Text) : Prop :=
  ∀ change, change? item = some change →
    p.hasNull = true ∨ ∃ f, yaml.dump (c.put change.1 change.2).document = .error f

/-- The configurations that are written while items are carried out. -/
def written (p : Path) (yaml : Library) : Files → List Text → List Config
  | _, [] => []
  | fs, item :: items =>
    match change? item, (load fs p yaml).2 with
    | some (key, v), .ok c =>
      match save fs p (c.put key v) yaml with
      | ⟨.ok (), fs⟩ => c.put key v :: written p yaml fs items
      | ⟨.error _, _⟩ => []
    | _, _ => []

theorem change?_eq_some (h : change? item = some (key, v)) :
    ∃ name given, Text.splitAt? '=' item = some (name, given) ∧ key = keyOf name ∧
      valueFor key given = .ok v := by
  obtain ⟨⟨name, given⟩, hsplit, h⟩ := Option.bind_eq_some_iff.mp h
  obtain ⟨w, hw, heq⟩ := Option.map_eq_some_iff.mp h
  obtain ⟨rfl, rfl⟩ := Prod.mk.inj heq
  refine ⟨name, given, hsplit, rfl, ?_⟩
  cases hvalue : valueFor (keyOf name) given with
  | error => rw [hvalue] at hw; cases hw
  | ok w' => rw [hvalue] at hw; exact congrArg Except.ok (Option.some.inj hw)

theorem suits_of_change? (h : change? item = some (key, v)) : v.Suits key := by
  obtain ⟨name, given, -, -, hvalue⟩ := change?_eq_some h
  exact (suits_of_valueFor hvalue).2

example : change? " On-Leaf-Change =Off".toList =
    some (Settings.leafChangeKey, .bool false) := by decide

theorem change?_of_split {name given : Text} (h : Text.splitAt? '=' item = some (name, given)) :
    change? item = (valueFor (keyOf name) given).toOption.map fun v => (keyOf name, v) := by
  rw [change?, h]
  rfl

/-! ## What changes leave -/

/-- What is to be read of a setting when changes were made: what it was set to last, or else what
was read of it before. -/
def readingAfter (c : Config) (changes : List (Text × Setting)) (key : Text) :
    Except SettingFault Setting :=
  (changes.reverse.lookup key).elim (c.reading key) .ok

/-- A configuration `d` is `c` with changes: it is the same mapping, and of each setting what was to
be read is read, a fault included, unless a number in it had too many digits. -/
structure Changed (c : Config) (changes : List (Text × Setting)) (d : Config) : Prop where
  mapping : d.Same (c.putAll changes)
  reading : ∀ key, c.readingAfter changes key ≠ .error .tooManyDigits →
    d.reading key = c.readingAfter changes key

theorem Changed.refl (c : Config) : c.Changed [] c := ⟨.refl c, fun _ _ => rfl⟩

theorem readingAfter_singleton (c : Config) (key key' : Text) (v : Setting) :
    c.readingAfter [(key, v)] key' = if key' = key then .ok v else c.reading key' := by
  rw [readingAfter, List.reverse_singleton, List.lookup_cons]
  by_cases hkey : key' = key
  · rw [if_pos hkey, hkey, beq_self_eq_true]
    rfl
  · rw [if_neg hkey, beq_false_of_ne hkey]
    rfl

/-- One change that was stored. -/
theorem changed_of_same (hc : c.Read) (hd : d.Read) (hv : v.Suits key)
    (hsame : d.Same (c.put key v)) : c.Changed [(key, v)] d where
  mapping := hsame
  reading := by
    intro key' hread
    rw [readingAfter_singleton] at hread ⊢
    by_cases hkey : key' = key
    · obtain ⟨R, -, hvalue⟩ := hsame.get? hd.distinct (distinct_put hc.distinct key v) key
      rw [get?_put hc.distinct, if_pos rfl] at hvalue
      rw [if_pos hkey, hkey]
      cases hget : d.get? key with
      | none => rw [hget] at hvalue; cases hvalue
      | some w =>
          rw [hget, Option.rel_some_some] at hvalue
          rw [reading, hget, hvalue.eq_of_plain' hv.plain.id?_eq]
          exact hv.reading d.objects
    · rw [if_neg hkey] at hread ⊢
      exact hc.reading_of_put hd hv.plain hsame hkey hread

/-- Further changes. -/
theorem Changed.append {more : List (Text × Setting)} (h : c.Changed changes d)
    (h' : d.Changed more e) (hplain : ∀ change ∈ more, change.2.id? = none) :
    c.Changed (changes ++ more) e where
  mapping := by
    have hall : c.putAll (changes ++ more) = (c.putAll changes).putAll more := List.foldl_append
    rw [hall]
    exact h'.mapping.trans (h.mapping.putAll hplain)
  reading := by
    intro key hread
    have hafter : c.readingAfter (changes ++ more) key =
        (more.reverse.lookup key).elim (c.readingAfter changes key) .ok := by
      rw [readingAfter, List.reverse_append, List.lookup_append]
      cases more.reverse.lookup key <;> rfl
    rw [hafter] at hread ⊢
    have hmore := h'.reading key
    rw [readingAfter] at hmore
    cases hlast : more.reverse.lookup key with
    | some v =>
        rw [hlast] at hmore
        exact hmore nofun
    | none =>
        rw [hlast] at hread hmore
        have hchanges := h.reading key hread
        exact (hmore fun hlong => hread (hchanges.symm.trans hlong)).trans hchanges

/-! ## One change -/

/-- The file is read first, and the change is made only if it can be. -/
theorem change_eq (h : (load fs p yaml).2 = .ok c) (name given : Text) :
    (change fs (.ok p) name given yaml).2 =
      match valueFor (keyOf name) given with
      | .ok v => save fs p (c.put (keyOf name) v) yaml
      | .error e => ⟨.error e, fs⟩ := by
  simp only [change, h]
  cases valueFor (keyOf name) given <;> rfl

theorem written_cons (hchange : change? item = some (key, v)) (hload : (load fs p yaml).2 = .ok c)
    (hsave : save fs p (c.put key v) yaml = ⟨.ok (), fs'⟩) :
    written p yaml fs (item :: items) = c.put key v :: written p yaml fs' items := by
  rw [written, hchange, hload]
  dsimp only
  rw [hsave]

/-- A change that was stored, and is read back. -/
theorem Holds.changed_of_save (h : Holds fs p yaml c) (hyaml : yaml.Lawful)
    (hchange : change? item = some (key, v))
    (hsave : Config.save fs p (c.put key v) yaml = ⟨.ok (), fs'⟩)
    (hread : yaml.ReadsBack (c.put key v).document) :
    ∃ d, Holds fs' p yaml d ∧ c.Changed [(key, v)] d := by
  obtain ⟨d, hholds, hsame⟩ := h.save hyaml (isEmpty_put key v c) hsave hread
  exact ⟨d, hholds, changed_of_same (read_of_load hyaml h.load) (read_of_load hyaml hholds.load)
    (suits_of_change? hchange) hsame⟩

/-! ## Several changes -/

/-- Items were carried out: they ask for the changes, and what the file holds is the configuration
with the changes. -/
structure CarriedOut (c : Config) (items : List Text) (changes : List (Text × Setting))
    (fs : Files) (p : Path) (yaml : Library) (d : Config) : Prop where
  asked : items.map change? = changes.map some
  load : (Config.load fs p yaml).2 = .ok d
  changed : c.Changed changes d

theorem CarriedOut.nil (h : Holds fs p yaml c) : c.CarriedOut [] [] fs p yaml c :=
  ⟨rfl, h.load, .refl c⟩

theorem CarriedOut.plain (h : c.CarriedOut items changes fs p yaml d) :
    ∀ change ∈ changes, change.2.id? = none := by
  intro change hmem
  obtain ⟨item, -, hitem⟩ := List.mem_map.mp (h.asked ▸ List.mem_map_of_mem hmem)
  exact (suits_of_change? hitem).plain.id?_eq

theorem CarriedOut.cons (h : c'.CarriedOut items changes fs p yaml d)
    (hchange : change? item = some (key, v)) (hstep : c.Changed [(key, v)] c') :
    c.CarriedOut (item :: items) ((key, v) :: changes) fs p yaml d where
  asked := by rw [List.map_cons, List.map_cons, hchange, h.asked]
  load := h.load
  changed := hstep.append h.changed h.plain

/-- What is loaded of the settings afterwards is what was to be read. -/
theorem CarriedOut.value {settings : Settings} (h : c.CarriedOut items changes fs p yaml d)
    (hload : (Settings.load fs (.ok p) yaml).2 = .ok settings) :
    ∀ key ∈ Settings.keys, ∀ u, c.readingAfter changes key = .ok u → settings.value key = u := by
  intro key hkey u hread
  obtain ⟨d', hd', hsettings⟩ := Settings.load_eq_ok.mp hload
  obtain rfl := Except.ok.inj (hd'.symm.trans h.load)
  have hstored := h.changed.reading key (hread ▸ nofun)
  exact Except.ok.inj ((hsettings key hkey).symm.trans (hstored.trans hread))

end Config

/-- The code that a command ends with by itself. -/
def Ending.code? : Ending → Option Nat
  | .exit code _ => some code
  | .edit _ | .settingFailed _ | .fileFailed _ => none

theorem CommandResult.eq_of_code? {r : CommandResult} {code : Nat}
    (h : r.ending.code? = some code) : ∃ printed, r = ⟨.exit code printed, r.files⟩ := by
  obtain ⟨ending, files⟩ := r
  cases ending with
  | exit code' printed =>
      obtain rfl := Option.some.inj h
      exact ⟨printed, rfl⟩
  | edit | settingFailed | fileFailed => cases h

namespace Surroundings

variable {s : Surroundings} {p : Path} {c : Config} {item : Text} {items : List Text} {code : Nat}
  {printed : Printed} {files : Files}

/-- How the command ends when a setting cannot be changed. -/
def endOn (s : Surroundings) (e : OptionFault) : CommandResult :=
  match e with
  | .file .nullCharacter => s.error "config".toList FileFault.nullCharacter.message []
  | .file e => ⟨.fileFailed e, s.files⟩
  | .dump (.other _) => ⟨.exit 1 (.text []), s.files⟩
  | e => s.error "config".toList e.message []

/-- The command ends by itself on each fault but those of the files. -/
theorem exit_of_endOn {e : OptionFault} (hrun : s.endOn e = ⟨.exit code printed, files⟩) :
    code = 1 ∧ files = s.files ∧ ∀ f, e = .file f → f = .nullCharacter := by
  have hexit : ∀ {shown : Printed}, (⟨.exit 1 shown, s.files⟩ : CommandResult) =
      ⟨.exit code printed, files⟩ → code = 1 ∧ files = s.files := by
    intro shown hrun
    obtain ⟨hending, hfiles⟩ := CommandResult.mk.inj hrun
    exact ⟨(Ending.exit.inj hending).1.symm, hfiles.symm⟩
  unfold endOn at hrun
  split at hrun
  · obtain ⟨hcode, hfiles⟩ := hexit hrun
    exact ⟨hcode, hfiles, fun f hf => (OptionFault.file.inj hf).symm⟩
  · cases hrun
  · obtain ⟨hcode, hfiles⟩ := hexit hrun
    exact ⟨hcode, hfiles, nofun⟩
  · rename_i hother _
    obtain ⟨hcode, hfiles⟩ := hexit hrun
    exact ⟨hcode, hfiles, fun f hf => absurd hf (hother f)⟩

/-- What an item can do, if the command ends by itself: its change is stored, and the other items
follow; or it is refused, and what is stored stays. -/
theorem configure_cons_cases (hyaml : s.yaml.Lawful) (hpath : s.configPath = .ok p)
    (h : Config.Holds s.files p s.yaml c)
    (hrun : s.configure (item :: items) = ⟨.exit code printed, files⟩) :
    (∃ key v fs, Config.change? item = some (key, v) ∧
      Config.save s.files p (c.put key v) s.yaml = ⟨.ok (), fs⟩ ∧
      configure { s with files := fs } items = ⟨.exit code printed, files⟩) ∨
    code = 1 ∧ c.Refuses p s.yaml item ∧
      Config.load files p s.yaml = Config.load s.files p s.yaml := by
  rw [configure] at hrun
  dsimp only at hrun
  split at hrun
  · rename_i hsplit
    obtain ⟨hending, rfl⟩ := CommandResult.mk.inj hrun
    obtain ⟨rfl, -⟩ := Ending.exit.inj hending
    have hnone : Config.change? item = none := by rw [Config.change?, hsplit]; rfl
    exact .inr ⟨rfl, fun change hchange => absurd (hnone.symm.trans hchange) nofun, rfl⟩
  · rename_i name given hsplit
    have hchange := Config.change?_of_split hsplit
    have hstep := congrArg (fun q => (Config.change s.files q name given s.yaml).2) hpath
    rw [hstep, Config.change_eq h.load] at hrun
    cases hvalue : Config.valueFor (Config.keyOf name) given with
    | error e =>
        rw [hvalue] at hrun hchange
        obtain ⟨hcode, rfl, -⟩ := exit_of_endOn (s := s) hrun
        exact .inr ⟨hcode, fun change heq => absurd (hchange.symm.trans heq) nofun, rfl⟩
    | ok v =>
        rw [hvalue] at hrun hchange
        dsimp only at hrun
        cases hsave : Config.save s.files p (c.put (Config.keyOf name) v) s.yaml with
        | mk result fs =>
            rw [hsave] at hrun
            cases result with
            | ok => exact .inl ⟨_, v, fs, hchange, hsave, hrun⟩
            | error e =>
                obtain ⟨hcode, rfl, hfault⟩ := exit_of_endOn (s := { s with files := fs }) hrun
                obtain ⟨hrefused, hload⟩ :=
                  h.load_of_fault hyaml (Config.suits_of_change? hchange).plain hsave hfault
                refine .inr ⟨hcode, fun change heq => ?_, hload⟩
                obtain rfl := Option.some.inj (hchange.symm.trans heq)
                exact hrefused

/-- The settings are shown only if they can be loaded. -/
theorem showSettings_exit (hrun : s.showSettings = ⟨.exit code printed, files⟩) :
    code = 0 ∧ files = s.files ∧
      ∃ settings, (Settings.load s.files s.configPath s.yaml).2 = .ok settings := by
  rw [showSettings] at hrun
  split at hrun
  · cases hrun
  · rename_i path settings hshown
    obtain ⟨hending, rfl⟩ := CommandResult.mk.inj hrun
    obtain ⟨loaded, hloaded, -⟩ := bind_eq_ok.mp hshown
    exact ⟨(Ending.exit.inj hending).1.symm, rfl, loaded, hloaded⟩

/-! ## All items -/

/-- The path of a configuration. -/
def configFile : Path := .ofText "config.yaml".toList

/-- What a configuration says. -/
def palette : Text := "colors: [red, blue]\nenabled: true\n".toList

/-- A directory with that configuration. -/
def study : Surroundings where
  files := { files := [(["config.yaml".toList], .text palette)] }
  configPath := .ok configFile
  instanceId := "tpl-0123456789".toList
  timestamp := "2024-05-01T12:00:00".toList

/-- Two items, of which the second one asks for nothing that can be changed. -/
def requests : List Text := [" Enabled = no".toList, "bogus=1".toList]

theorem holds_study : ∃ c, Config.Holds study.files configFile library c ∧
    c.get? Settings.enabledKey = some (.bool true) := by
  have hread : ((library.load (Config.plainBreaks palette)).bind
      fun d => (Config.ofDocument d).get? Settings.enabledKey) = some (.bool true) := by
    decide +kernel
  obtain ⟨d, hd, henabled⟩ := Option.bind_eq_some_iff.mp hread
  have hfind : study.files.find configFile = .file (.text palette) := rfl
  refine ⟨.ofDocument d, ⟨⟨rfl, nofun, rfl, nofun⟩, .inl rfl, ?_⟩, henabled⟩
  simp only [Config.load, Files.has, Files.read, hfind, hd]

theorem readsBack_study : ∀ d ∈ Config.written configFile library study.files requests,
    library.ReadsBack d.document := by
  have halike : ∀ d ∈ Config.written configFile library study.files requests,
      (library.dump d.document).toOption.all fun s =>
        (library.load s).any fun e => decide (e.Alike d.document) := by
    decide +kernel
  exact fun d hd => readsBack_of_alike (halike d hd)

theorem exit_study : ∃ printed, study.configure requests =
    ⟨.exit 1 printed, (study.configure requests).files⟩ :=
  CommandResult.eq_of_code? (by decide +kernel)

/-- **Settings are changed item by item.** A command that ends well has made the changes of all
items, and the settings can be loaded. One that ends badly has made those of the items before one
that it refused; if this was the first one, then what is stored is what was stored before. -/
theorem configure_outcome (hyaml : s.yaml.Lawful) (hpath : s.configPath = .ok p)
    (h : Config.Holds s.files p s.yaml c)
    (hback : ∀ d ∈ Config.written p s.yaml s.files items, s.yaml.ReadsBack d.document)
    (hrun : s.configure items = ⟨.exit code printed, files⟩) :
    (code = 0 ∧ ∃ changes stored settings, c.CarriedOut items changes files p s.yaml stored ∧
      (Settings.load files s.configPath s.yaml).2 = .ok settings ∧
      ∀ key ∈ Settings.keys, ∀ u, c.readingAfter changes key = .ok u → settings.value key = u) ∨
    (code = 1 ∧ ∃ done refused later changes stored, items = done ++ refused :: later ∧
      c.CarriedOut done changes files p s.yaml stored ∧ stored.Refuses p s.yaml refused ∧
      (done = [] → Config.load files p s.yaml = Config.load s.files p s.yaml)) := by
  -- after each item the file holds what was read back, and that is what the other items change
  induction items generalizing s c with
  | nil =>
      obtain ⟨hcode, rfl, settings, hload⟩ := showSettings_exit hrun
      have hdone : c.CarriedOut [] [] s.files p s.yaml c := .nil h
      refine .inl ⟨hcode, [], c, settings, hdone, hload, hdone.value ?_⟩
      rw [← hpath]
      exact hload
  | cons item items ih =>
      obtain ⟨key, v, fs, hchange, hsave, hrest⟩ | ⟨hcode, hrefused, hload⟩ :=
        configure_cons_cases hyaml hpath h hrun
      · rw [Config.written_cons hchange h.load hsave] at hback
        obtain ⟨hread, hback⟩ := List.forall_mem_cons.mp hback
        obtain ⟨c', hholds, hstep⟩ := h.changed_of_save hyaml hchange hsave hread
        obtain ⟨hcode, changes, stored, settings, hdone, hload, -⟩ |
          ⟨hcode, done, refused, later, changes, stored, hitems, hdone, hrefused, -⟩ :=
            ih (s := { s with files := fs }) hyaml hpath hholds hback hrest
        · have hall := hdone.cons hchange hstep
          refine .inl ⟨hcode, _, stored, settings, hall, hload, hall.value ?_⟩
          rw [← hpath]
          exact hload
        · exact .inr ⟨hcode, item :: done, refused, later, _, stored, by rw [hitems]; rfl,
            hdone.cons hchange hstep, hrefused, nofun⟩
      · exact .inr ⟨hcode, [], item, items, [], c, rfl,
          ⟨rfl, hload ▸ h.load, .refl c⟩, hrefused, fun _ => hload⟩

theorem configure_outcome_study :
    ∃ c done refused later changes stored, Config.Holds study.files configFile library c ∧
      requests = done ++ refused :: later ∧
      c.CarriedOut done changes (study.configure requests).files configFile library stored ∧
      stored.Refuses configFile library refused := by
  obtain ⟨c, hholds, -⟩ := holds_study
  obtain ⟨printed, hrun⟩ := exit_study
  obtain ⟨hzero, -⟩ | ⟨-, done, refused, later, changes, stored, hitems, hdone, hrefused, -⟩ :=
    configure_outcome (s := study) lawful_library rfl hholds readsBack_study hrun
  · cases hzero
  · exact ⟨c, done, refused, later, changes, stored, hholds, hitems, hdone, hrefused⟩

/-- A command that ends badly can leave another mapping than it found. -/
theorem configure_not_atomic :
    ¬ ∀ (s : Surroundings) (p : Path) (c : Config) (items : List Text) (printed : Printed)
      (files : Files), s.yaml.Lawful → s.configPath = .ok p → Config.Holds s.files p s.yaml c →
        (∀ d ∈ Config.written p s.yaml s.files items, s.yaml.ReadsBack d.document) →
        s.configure items = ⟨.exit 1 printed, files⟩ →
        ∃ stored, (Config.load files p s.yaml).2 = .ok stored ∧ stored.Same c := by
  intro h
  obtain ⟨c, hholds, htrue⟩ := holds_study
  obtain ⟨printed, hrun⟩ := exit_study
  obtain ⟨stored, hstored, hsame⟩ :=
    h study _ c _ printed _ lawful_library rfl hholds readsBack_study hrun
  have hfalse : (Config.load (study.configure requests).files configFile study.yaml).2.toOption.bind
      (fun c => c.get? Settings.enabledKey) = some (.bool false) := by
    decide +kernel
  rw [hstored] at hfalse
  replace hfalse : stored.get? Settings.enabledKey = some (.bool false) := hfalse
  obtain ⟨R, -, hvalue⟩ := hsame.get? (Config.read_of_load lawful_library hstored).distinct
    (Config.read_of_load lawful_library hholds.load).distinct Settings.enabledKey
  rw [htrue, hfalse, Option.rel_some_some] at hvalue
  cases hvalue.eq_of_plain rfl

end Surroundings

end TaskLine
