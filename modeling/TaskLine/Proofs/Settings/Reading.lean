import TaskLine.Proofs.Settings.Mapping

/-!
# What is read of settings

The settings are read one by one, each from the value of its key (`Config.reading`). They can all be
read at once exactly if each of them can (`Settings.load_eq_ok`).

Values that are the same are read the same, whatever numbers they go by. Only the value of a switch
is searched for whole numbers with too many digits. No change brings such a number, so what was
read before a change is read of the other keys afterwards (`Config.Read.reading_of_put`).
-/

namespace TaskLine

open Yaml

variable {R : Nat → Nat → Prop} {objects objects' : Objects} {v w u : Setting} {key : Text}

theorem bind_eq_ok {ε α β : Type} {x : Except ε α} {f : α → Except ε β} {b : β} :
    x.bind f = .ok b ↔ ∃ a, x = .ok a ∧ f a = .ok b := by
  cases x with
  | error => exact ⟨nofun, nofun⟩
  | ok a => exact ⟨fun h => ⟨a, rfl, h⟩, fun ⟨_, h, h'⟩ => Except.ok.inj h ▸ h'⟩

theorem map_eq_ok {ε α β : Type} {x : Except ε α} {f : α → β} {b : β} :
    x.map f = .ok b ↔ ∃ a, x = .ok a ∧ f a = b := by
  cases x with
  | error => exact ⟨nofun, nofun⟩
  | ok a => exact ⟨fun h => ⟨a, rfl, Except.ok.inj h⟩,
      fun ⟨_, h, h'⟩ => congrArg Except.ok (Except.ok.inj h ▸ h')⟩

namespace Yaml.Value

theorem Matches.eq_or_id? (h : v.Matches R w) : v = w ∨ v.id? ≠ none ∧ w.id? ≠ none := by
  by_cases hv : v.id? = none
  · exact .inl (h.eq_of_plain hv).symm
  · by_cases hw : w.id? = none
    · exact .inl (h.eq_of_plain' hw)
    · exact .inr ⟨hv, hw⟩

end Yaml.Value

namespace Setting

/-! ## Single values -/

theorem toNat_of_id? (h : v.id? ≠ none) (default : Int) : toNat v default = .ok default := by
  cases v with
  | moment | object => rfl
  | _ => exact absurd rfl h

theorem toBool_of_id? (h : v.id? ≠ none) (hshort : v.exceedsDigits objects = false)
    (default : Bool) : toBool objects v default = .ok default := by
  unfold toBool
  rw [hshort, if_neg Bool.false_ne_true]
  cases v with
  | moment | object => rfl
  | _ => exact absurd rfl h

theorem toNat_congr (h : v.Matches R w) (default : Int) : toNat v default = toNat w default := by
  rcases h.eq_or_id? with rfl | ⟨hv, hw⟩
  · rfl
  · rw [toNat_of_id? hv, toNat_of_id? hw]

theorem toBool_of_exceedsDigits (h : v.exceedsDigits objects = true) (default : Bool) :
    toBool objects v default = .error .tooManyDigits :=
  if_pos h

/-- A switch is read the same among other objects, if no number in it is too long. -/
theorem toBool_congr (hmatch : w.Matches R v) (hw : w.exceedsDigits objects' = false)
    (hv : v.exceedsDigits objects = false) (default : Bool) :
    toBool objects' w default = toBool objects v default := by
  rcases hmatch.eq_or_id? with rfl | ⟨hidw, hidv⟩
  · unfold toBool
    rw [hv, hw]
  · rw [toBool_of_id? hidv hv, toBool_of_id? hidw hw]

/-- What is read of the value of a key, if it has one. -/
def readAs (key : Text) (objects : Objects) (given? : Option Setting) :
    Except SettingFault Setting :=
  if key = Settings.delayKey then ((given?.getD (.int 300)).toNat 300).map .int
  else ((given?.getD (.bool true)).toBool objects true).map .bool

theorem readAs_delay (objects : Objects) (given? : Option Setting) :
    readAs Settings.delayKey objects given? = ((given?.getD (.int 300)).toNat 300).map .int :=
  if_pos rfl

theorem readAs_switch (h : key ≠ Settings.delayKey) (objects : Objects)
    (given? : Option Setting) :
    readAs key objects given? = ((given?.getD (.bool true)).toBool objects true).map .bool :=
  if_neg h

/-- What is read of a value is read of one that is the same, unless a number in it was too long. -/
theorem readAs_of_rel {x y : Option Setting} (hmatch : Option.Rel (Value.Matches R) y x)
    (hlong : ∀ v w, x = some v → y = some w → w.Matches R v → w.exceedsDigits objects' = true →
      v.exceedsDigits objects = true)
    (h : readAs key objects x ≠ .error .tooManyDigits) :
    readAs key objects' y = readAs key objects x := by
  cases hmatch with
  | none =>
      by_cases hkey : key = Settings.delayKey
      · rw [hkey, readAs_delay, readAs_delay]
      · rw [readAs_switch hkey, readAs_switch hkey]
        rfl
  | @some w v hwv =>
      by_cases hkey : key = Settings.delayKey
      · rw [hkey, readAs_delay, readAs_delay, Option.getD_some, Option.getD_some, toNat_congr hwv]
      · rw [readAs_switch hkey, Option.getD_some] at h ⊢
        rw [readAs_switch hkey, Option.getD_some]
        have hv : v.exceedsDigits objects = false := Bool.eq_false_iff.mpr fun hv =>
          h (congrArg (Except.map Value.bool) (toBool_of_exceedsDigits hv true))
        have hw : w.exceedsDigits objects' = false := Bool.eq_false_iff.mpr fun hw =>
          Bool.eq_false_iff.mp hv (hlong v w rfl rfl hwv hw)
        rw [toBool_congr hwv hw hv]

end Setting

/-! ## Settings in a mapping -/

namespace Config

variable {c d : Config} {settings : Settings} {fs : Files} {p : Path} {yaml : Library}

theorem read_of_load (hyaml : yaml.Lawful) (h : (load fs p yaml).2 = .ok c) : c.Read := by
  unfold load at h
  split at h
  · cases h
  · exact Except.ok.inj h ▸ .empty
  · split at h
    · split at h
      · rename_i hd
        exact Except.ok.inj h ▸ read_ofDocument (hyaml.distinct hd)
      · exact Except.ok.inj h ▸ .empty
    · exact Except.ok.inj h ▸ .empty

/-- What is read of a setting. -/
def reading (c : Config) (key : Text) : Except SettingFault Setting :=
  Setting.readAs key c.objects (c.get? key)

/-- What is read of a setting is read in a mapping that is the same but for another key, unless a
number in it was too long. -/
theorem Read.reading_of_put {key' : Text} (hc : c.Read) (hd : d.Read) (hv : v.Plain)
    (hsame : d.Same (c.put key' v)) (hkey : key ≠ key')
    (hread : c.reading key ≠ .error .tooManyDigits) : d.reading key = c.reading key := by
  obtain ⟨R, hR, hvalue⟩ := hsame.get? hd.distinct (distinct_put hc.distinct key' v) key
  rw [get?_put hc.distinct, if_neg hkey] at hvalue
  refine Setting.readAs_of_rel hvalue (fun u w _ hw hmatch hlong => ?_) hread
  have hne : d.entries ≠ [] := List.ne_nil_of_mem ((get?_eq_some hd.distinct).mp hw)
  rw [← Value.exceedsDigits_congr (hd.lookup_document_eq hne)] at hlong
  exact hc.exceedsDigits_of_put hv (hR.exceedsDigits_of_matches hmatch hlong)

theorem reading_delay {n : Int} : c.reading Settings.delayKey = .ok (.int n) ↔
    ((c.get? Settings.delayKey).getD (.int 300)).toNat 300 = .ok n := by
  simp [reading, Setting.readAs_delay, map_eq_ok]

theorem reading_switch (h : key ≠ Settings.delayKey) {b : Bool} : c.reading key = .ok (.bool b) ↔
    ((c.get? key).getD (.bool true)).toBool c.objects true = .ok b := by
  simp [reading, Setting.readAs_switch h, map_eq_ok]

end Config

namespace Settings

variable {c : Config} {settings : Settings} {fs : Files} {p : Path} {yaml : Library}

/-- The keys of all settings. -/
def keys : List Text := [enabledKey, lineCommitKey, leafChangeKey, delayKey]

/-- The value of a setting. -/
def value (settings : Settings) (key : Text) : Setting :=
  if key = delayKey then .int settings.delay
  else if key = enabledKey then .bool settings.flags.master
  else if key = lineCommitKey then .bool settings.flags.onLineCommit
  else .bool settings.flags.onLeafChange

theorem ofConfig_eq_ok : ofConfig c = .ok settings ↔
    ∀ key ∈ keys, c.reading key = .ok (settings.value key) := by
  have hkeys : (∀ key ∈ keys, c.reading key = .ok (settings.value key)) ↔
      c.reading enabledKey = .ok (.bool settings.flags.master) ∧
      c.reading lineCommitKey = .ok (.bool settings.flags.onLineCommit) ∧
      c.reading leafChangeKey = .ok (.bool settings.flags.onLeafChange) ∧
      c.reading delayKey = .ok (.int settings.delay) := by
    simp only [keys, List.forall_mem_cons, List.not_mem_nil, false_imp_iff, implies_true, and_true]
    rfl
  rw [hkeys, Config.reading_switch (by decide), Config.reading_switch (by decide),
    Config.reading_switch (by decide), Config.reading_delay]
  simp only [ofConfig, bind, bind_eq_ok, pure, Except.pure]
  constructor
  · rintro ⟨master, hmaster, onLineCommit, hline, onLeafChange, hleaf, delay, hdelay, h⟩
    obtain rfl := Except.ok.inj h
    exact ⟨hmaster, hline, hleaf, hdelay⟩
  · rintro ⟨hmaster, hline, hleaf, hdelay⟩
    exact ⟨_, hmaster, _, hline, _, hleaf, _, hdelay, rfl⟩

/-- The settings that are loaded are what is read of each of them. -/
theorem load_eq_ok : (load fs (.ok p) yaml).2 = .ok settings ↔
    ∃ c, (Config.load fs p yaml).2 = .ok c ∧
      ∀ key ∈ keys, c.reading key = .ok (settings.value key) := by
  show ((Config.load fs p yaml).2.mapError .file).bind ofConfig = .ok settings ↔ _
  rw [bind_eq_ok]
  refine exists_congr fun c => and_congr ?_ ofConfig_eq_ok
  cases (Config.load fs p yaml).2 with
  | error => exact ⟨nofun, nofun⟩
  | ok d => exact ⟨fun h => congrArg Except.ok (Except.ok.inj h),
      fun h => congrArg Except.ok (Except.ok.inj h)⟩

end Settings

end TaskLine
