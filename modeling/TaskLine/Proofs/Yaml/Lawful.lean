import TaskLine.Proofs.Yaml.Making
import TaskLine.Proofs.Yaml.Reaching
import TaskLine.Proofs.Yaml.Returns
import TaskLine.Yaml.Library

/-!
# What is relied on of a library of documents

Whichever library the configuration is read and written with, three things are relied on
(`Library.Lawful`): a mapping that it reads holds each key once, its lines end at line feeds, and it
can write a mapping of a text to a plain value. The library that the program is run with keeps to
them (`lawful_library`).

That a document reads back (`Library.ReadsBack`) is asked of the documents that are written, one by
one. For a given document it is found out by reading what was written (`readsBack_of_alike`).
-/

namespace TaskLine.Yaml

variable {objects : Objects} {v : Value} {d : Document} {yaml : Library}

/-- A switch, or a whole number that is not too long to be written. -/
inductive Value.Plain : Value → Prop
  | bool (b : Bool) : Plain (.bool b)
  | int (n : Int) (h : Text.exceedsDigits n = false) : Plain (.int n)

theorem Value.Plain.id?_eq (h : v.Plain) : v.id? = none := by
  cases h <;> rfl

/-- What goes by no number leads to nothing else. -/
theorem Leads.eq_of_id? {w : Value} (h : Leads objects v w) (hv : v.id? = none) : w = v := by
  cases h with
  | refl => rfl
  | part hid => cases hv.symm.trans hid

theorem Value.Plain.exceedsDigits_eq (h : v.Plain) (objects : Objects) :
    v.exceedsDigits objects = false := by
  refine Bool.eq_false_iff.mpr fun hlong => ?_
  obtain ⟨n, hleads, hn⟩ := exceedsDigits_iff.mp hlong
  have heq := hleads.eq_of_id? h.id?_eq
  cases h with
  | bool b => cases heq
  | int m hm =>
      cases heq
      exact Bool.false_ne_true (hm.symm.trans hn)

theorem Value.exceedsDigits_text (key : Text) (objects : Objects) :
    (text key).exceedsDigits objects = false := by
  refine Bool.eq_false_iff.mpr fun hlong => ?_
  obtain ⟨n, hleads, -⟩ := exceedsDigits_iff.mp hlong
  cases hleads.eq_of_id? rfl

/-! ## Laws -/

/-- What is relied on of a library of documents. -/
structure Library.Lawful (yaml : Library) : Prop where
  /-- A mapping holds each key once. -/
  distinct : ∀ {s d}, yaml.load s = some d → EachDistinct d.objects
  /-- Lines end at line feeds. -/
  lineFeeds : ∀ {d s}, yaml.dump d = .ok s → '\r' ∉ s
  /-- A mapping of a text to a plain value can be written. -/
  single : ∀ {v : Value} (key : Text) (id : Nat), v.Plain →
    ∃ s, yaml.dump { root := .object id, objects := [(id, .mapping [(.text key, v)])] } = .ok s

/-- What is written of a document is read as one that says the same. -/
def Library.ReadsBack (yaml : Library) (d : Document) : Prop :=
  ∀ s, yaml.dump d = .ok s → ∃ e, yaml.load s = some e ∧ e.Same d

theorem readsBack_of_alike
    (h : (yaml.dump d).toOption.all fun s => (yaml.load s).any fun e => decide (e.Alike d)) :
    yaml.ReadsBack d := by
  intro s hs
  rw [hs] at h
  obtain ⟨e, he, halike⟩ := (Option.any_eq_true ..).mp h
  exact ⟨e, he, (of_decide_eq_true halike).same⟩

/-! ## The library at hand -/

theorem library_dump_eq_ok {s : Text} : library.dump d = .ok s ↔
    d.root.exceedsDigits d.objects = false ∧ d.text = s := by
  show (if d.root.exceedsDigits d.objects then _ else _) = _ ↔ _
  split
  next hlong => simp [hlong]
  next hshort => simp [hshort]

theorem lawful_library : library.Lawful where
  distinct := Document.distinct_of_ofText
  lineFeeds := by
    intro d s h
    obtain ⟨-, rfl⟩ := library_dump_eq_ok.mp h
    exact d.return_notMem_text
  single := by
    intro v key id hv
    refine ⟨_, library_dump_eq_ok.mpr ⟨?_, rfl⟩⟩
    refine Bool.eq_false_iff.mpr fun hlong => ?_
    obtain ⟨n, hleads, hn⟩ := Value.exceedsDigits_iff.mp hlong
    cases hleads with
    | @part _ w _ id' o hid ho hw hleads =>
        obtain rfl := Option.some.inj hid
        rw [List.lookup_cons_self] at ho
        obtain rfl := Option.some.inj ho
        have hw' := Value.exceedsDigits_iff.mpr ⟨n, hleads, hn⟩
        obtain ⟨e, he, hwe⟩ := Object.mem_parts_mapping.mp hw
        obtain rfl := List.mem_singleton.mp he
        rcases hwe with rfl | rfl
        · exact Bool.false_ne_true ((Value.exceedsDigits_text key _).symm.trans hw')
        · exact Bool.false_ne_true ((hv.exceedsDigits_eq _).symm.trans hw')

end TaskLine.Yaml
