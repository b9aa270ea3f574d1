import TaskLine.Proofs.Yaml.Lawful
import TaskLine.Settings.Store

/-!
# Stored mappings

A configuration is a mapping. Two of them are the same (`Config.Same`) if the documents that hold
them say the same; what a document says that is the same as that of a configuration is the same
mapping (`Config.same_ofDocument`). A change of a key replaces its value and nothing else
(`Config.get?_put`), it does so in both of two mappings that are the same (`Config.Same.put`), and
it brings no number that is too long to be written (`Config.Read.exceedsDigits_of_put`).
-/

namespace TaskLine

open Yaml

/-! ## Members -/

namespace Yaml.Value

variable {key : Text} {v : Value} {es : List (Value × Value)} {e : Value × Value}

theorem sameKey_text : sameKey v (.text key) = true ↔ v = .text key := by
  cases v <;> simp [sameKey, number?]

theorem mem_putEntry : e ∈ putEntry (.text key) v es ↔
    e = (.text key, v) ∨ e ∈ es ∧ e.1 ≠ .text key := by
  unfold putEntry
  split
  · rename_i hany
    obtain ⟨f, hf, hkey⟩ := List.any_eq_true.mp hany
    rw [List.mem_map]
    constructor
    · rintro ⟨g, hg, rfl⟩
      split
      · rename_i hsame
        exact .inl (by rw [sameKey_text.mp hsame])
      · rename_i hother
        exact .inr ⟨hg, fun heq => hother (sameKey_text.mpr heq)⟩
    · rintro (rfl | ⟨he, hne⟩)
      · exact ⟨f, hf, by rw [if_pos hkey, sameKey_text.mp hkey]⟩
      · exact ⟨e, he, if_neg (mt sameKey_text.mp hne)⟩
  · rename_i hnone
    rw [List.mem_append, List.mem_singleton, or_comm]
    refine or_congr_right (and_iff_left_of_imp fun he heq => hnone ?_).symm
    exact List.any_eq_true.mpr ⟨e, he, sameKey_text.mpr heq⟩

/-- Where each key stands once, a member is found by its key. -/
theorem find?_text (h : Distinct es) :
    es.find? (fun e => sameKey e.1 (.text key)) = some e ↔ e ∈ es ∧ e.1 = .text key := by
  constructor
  · intro hfound
    have hkey := List.find?_some hfound
    exact ⟨List.mem_of_find?_eq_some hfound, sameKey_text.mp hkey⟩
  · rintro ⟨hmem, hkey⟩
    induction es with
    | nil => cases hmem
    | cons f es ih =>
        obtain ⟨hhead, htail⟩ := List.pairwise_cons.mp h
        rw [List.find?_cons]
        rcases List.mem_cons.mp hmem with rfl | hmem
        · rw [sameKey_text.mpr hkey]
        · rw [← hkey, hhead e hmem, hkey]
          exact ih htail hmem

theorem Matches.of_text {R : Nat → Nat → Prop} (h : (text key).Matches R v) : v = .text key :=
  h.eq_of_plain rfl

theorem Matches.of_text' {R : Nat → Nat → Prop} (h : v.Matches R (text key)) : v = .text key :=
  h.eq_of_plain' rfl

end Yaml.Value

theorem Yaml.MembersMatch.key_iff {R : Nat → Nat → Prop} {e f : Value × Value} {key : Text}
    (h : MembersMatch R e f) : e.1 = .text key ↔ f.1 = .text key :=
  ⟨fun heq => (heq ▸ h.1).of_text, fun heq => (heq ▸ h.1).of_text'⟩

namespace Config

variable {c d : Config} {key key' : Text} {v w : Setting} {changes : List (Text × Setting)}

@[simp] theorem put_id (key : Text) (v : Setting) (c : Config) : (c.put key v).id = c.id := rfl

@[simp] theorem put_objects (key : Text) (v : Setting) (c : Config) :
    (c.put key v).objects = c.objects := rfl

theorem get?_eq_some (h : Distinct c.entries) :
    c.get? key = some v ↔ (.text key, v) ∈ c.entries := by
  rw [get?, Option.map_eq_some_iff]
  constructor
  · rintro ⟨e, he, rfl⟩
    obtain ⟨hmem, hkey⟩ := (Value.find?_text h).mp he
    exact hkey ▸ hmem
  · exact fun hmem => ⟨_, (Value.find?_text h).mpr ⟨hmem, rfl⟩, rfl⟩

theorem distinct_put (h : Distinct c.entries) (key : Text) (v : Setting) :
    Distinct (c.put key v).entries :=
  Value.distinct_putEntry h _ v

/-- A change of a key replaces its value and no other. -/
theorem get?_put (h : Distinct c.entries) (key key' : Text) (v : Setting) :
    (c.put key v).get? key' = if key' = key then some v else c.get? key' := by
  ext w
  rw [get?_eq_some (distinct_put h key v), put, Value.mem_putEntry]
  split
  · rename_i heq
    simp [heq, eq_comm]
  · rename_i hne
    simp [get?_eq_some h, hne]

/-! ## Several changes -/

/-- Set several keys, the first one first. -/
def putAll (changes : List (Text × Setting)) (c : Config) : Config :=
  changes.foldl (fun c change => c.put change.1 change.2) c

/-! ## Mappings that are the same -/

/-- Two configurations are the same mapping. -/
def Same (c d : Config) : Prop := c.document.Same d.document

theorem Same.refl (c : Config) : c.Same c := Document.Same.refl c.document

theorem Same.trans {e : Config} (h : c.Same d) (h' : d.Same e) : c.Same e :=
  Document.Same.trans h h'

theorem lookup_document (c : Config) (id : Nat) :
    c.document.objects.lookup id =
      if id = c.id then some (.mapping c.entries) else c.objects.lookup id := by
  rw [document, List.lookup_cons]
  split
  · rename_i heq
    rw [if_pos (beq_iff_eq.mp heq)]
  · rename_i hne
    rw [if_neg (by simpa using hne)]

/-- What makes two configurations the same: their objects, and their members among them. -/
theorem same_iff : c.Same d ↔ ∃ R, Renumbering R c.document.objects d.document.objects ∧
    R c.id d.id ∧ Agree (MembersMatch R) c.entries d.entries := by
  refine exists_congr fun R => and_congr_right fun hR => ?_
  constructor
  · intro hroot
    have hid : R c.id d.id := Option.rel_some_some.mp hroot.id
    have hobject := hR.object hid
    rw [lookup_document, lookup_document, if_pos rfl, if_pos rfl] at hobject
    exact ⟨hid, by cases hobject with | some hmembers => exact hmembers⟩
  · exact fun h => ⟨rfl, .some h.1⟩

/-- What a document says that is the same as that of a configuration is the same mapping. -/
theorem same_ofDocument {e : Yaml.Document} (h : e.Same c.document) : (ofDocument e).Same c := by
  obtain ⟨R, hR, hroot⟩ := h
  obtain ⟨id, hid⟩ : ∃ id, e.root = .object id := by
    have hbare := hroot.bare
    cases hroot : e.root with
    | object id => exact ⟨id, rfl⟩
    | _ => rw [hroot] at hbare; cases hbare
  have hids : R id c.id := by
    have := hroot.id
    rw [hid] at this
    exact Option.rel_some_some.mp this
  have hobject := hR.object hids
  rw [lookup_document, if_pos rfl] at hobject
  cases hlookup : e.objects.lookup id with
  | none => rw [hlookup] at hobject; cases hobject
  | some o =>
      rw [hlookup, Option.rel_some_some] at hobject
      cases o with
      | list | set => cases hobject
      | mapping entries =>
          have hof : ofDocument e = { entries, objects := e.objects, id } := by
            simp only [ofDocument, hid, hlookup]
          have hsame (id' : Nat) : (ofDocument e).document.objects.lookup id' =
              e.objects.lookup id' := by
            rw [hof, lookup_document]
            split
            · rename_i heq
              rw [heq, hlookup]
            · rfl
          refine ⟨R, ⟨hR.oneToOne, fun hab => ?_⟩, ?_⟩
          · rw [hsame]
            exact hR.object hab
          · rw [hof, document, ← hid]
            exact hroot

/-- The values of a key in two configurations that are the same. -/
theorem Same.get? (h : c.Same d) (hc : Distinct c.entries) (hd : Distinct d.entries) (key : Text) :
    ∃ R, Renumbering R c.document.objects d.document.objects ∧
      Option.Rel (Value.Matches R) (c.get? key) (d.get? key) := by
  obtain ⟨R, hR, -, hmembers⟩ := same_iff.mp h
  refine ⟨R, hR, ?_⟩
  cases hv : c.get? key with
  | some v =>
      obtain ⟨f, hf, hkey, hvalue⟩ := hmembers.1 _ ((get?_eq_some hc).mp hv)
      have hmem : (.text key, f.2) ∈ d.entries := hkey.of_text ▸ hf
      rw [(get?_eq_some hd).mpr hmem]
      exact .some hvalue
  | none =>
      cases hw : d.get? key with
      | none => exact .none
      | some w =>
          obtain ⟨e, he, hkey, -⟩ := hmembers.2 _ ((get?_eq_some hd).mp hw)
          have hmem : (.text key, e.2) ∈ c.entries := hkey.of_text' ▸ he
          rw [(get?_eq_some hc).mpr hmem] at hv
          cases hv

/-- A change is the same change in both of two configurations that are the same. -/
theorem Same.put (h : c.Same d) (key : Text) (hv : v.id? = none) :
    (c.put key v).Same (d.put key v) := by
  obtain ⟨R, hR, hid, hmembers⟩ := same_iff.mp h
  have hput : Agree (MembersMatch R) (c.put key v).entries (d.put key v).entries := by
    constructor
    · intro e he
      rcases Value.mem_putEntry.mp he with rfl | ⟨he, hne⟩
      · exact ⟨_, Value.mem_putEntry.mpr (.inl rfl), .of_plain rfl, .of_plain hv⟩
      · obtain ⟨f, hf, hmatch⟩ := hmembers.1 e he
        exact ⟨f, Value.mem_putEntry.mpr (.inr ⟨hf, mt hmatch.key_iff.mpr hne⟩), hmatch⟩
    · intro f hf
      rcases Value.mem_putEntry.mp hf with rfl | ⟨hf, hne⟩
      · exact ⟨_, Value.mem_putEntry.mpr (.inl rfl), .of_plain rfl, .of_plain hv⟩
      · obtain ⟨e, he, hmatch⟩ := hmembers.2 f hf
        exact ⟨e, Value.mem_putEntry.mpr (.inr ⟨he, mt hmatch.key_iff.mp hne⟩), hmatch⟩
  refine same_iff.mpr ⟨R, ⟨hR.oneToOne, fun {a b} hab => ?_⟩, hid, hput⟩
  -- one-to-one: the mapping itself stands for the other one only, and no other object changes
  have hids : a = c.id ↔ b = d.id := hR.oneToOne hab hid
  have hobject := hR.object hab
  rw [lookup_document, lookup_document] at hobject ⊢
  rw [put_id, put_id, put_objects, put_objects]
  by_cases ha : a = c.id
  · rw [if_pos ha, if_pos (hids.mp ha)]
    exact .some hput
  · rw [if_neg ha, if_neg (mt hids.mpr ha)] at hobject ⊢
    exact hobject

theorem Same.putAll (h : c.Same d) (hplain : ∀ change ∈ changes, change.2.id? = none) :
    (c.putAll changes).Same (d.putAll changes) := by
  induction changes generalizing c d with
  | nil => exact h
  | cons change changes ih =>
      obtain ⟨hchange, hchanges⟩ := List.forall_mem_cons.mp hplain
      exact ih (h.put change.1 hchange) hchanges

/-! ## Mappings that were read -/

/-- A configuration as it comes from a file: each key stands once, and the members are those of the
object that they come from. -/
structure Read (c : Config) : Prop where
  distinct : Distinct c.entries
  object : c.entries ≠ [] → c.objects.lookup c.id = some (.mapping c.entries)

theorem Read.empty : Read {} := ⟨.nil, fun h => absurd rfl h⟩

theorem read_ofDocument {d : Yaml.Document} (h : EachDistinct d.objects) : (ofDocument d).Read := by
  unfold ofDocument
  split
  · rename_i id _
    split
    · rename_i entries hmapping
      obtain ⟨front, back, hobjects, -⟩ := List.lookup_eq_some_iff.mp hmapping
      have hmem : (id, .mapping entries) ∈ d.objects := by simp [hobjects]
      exact ⟨h id _ hmem, fun _ => hmapping⟩
    · exact .empty
  · exact .empty

/-- The members come from their object, so putting them in its place changes nothing. -/
theorem Read.lookup_document_eq (h : c.Read) (hne : c.entries ≠ []) (id : Nat) :
    c.document.objects.lookup id = c.objects.lookup id := by
  rw [lookup_document]
  split
  · rename_i heq
    rw [heq, h.object hne]
  · rfl

/-- A change to a plain value leads to no number that is too long to be written. What leads to one
has done so before. -/
theorem Read.leads_of_put (h : c.Read) (hv : v.Plain) {x : Value}
    (hleads : Leads (c.put key v).document.objects w x)
    (hx : ∃ n, x = .int n ∧ Text.exceedsDigits n = true) : Leads c.objects w x := by
  induction hleads with
  | refl => exact .refl _
  | @part _ u x id o hid ho hu hleads ih =>
      rw [lookup_document, put_id, put_objects] at ho
      split at ho
      · rename_i heq
        obtain rfl := Option.some.inj ho
        -- the value leads to the mapping: a member that was put there cannot be on the way
        obtain ⟨n, rfl, hn⟩ := hx
        have hlong := Value.exceedsDigits_iff.mpr ⟨n, hleads, hn⟩
        obtain ⟨e, he, hue⟩ := Object.mem_parts_mapping.mp hu
        rcases Value.mem_putEntry.mp he with rfl | ⟨he, -⟩
        · rcases hue with rfl | rfl
          · rw [Value.exceedsDigits_text] at hlong
            cases hlong
          · rw [hv.exceedsDigits_eq] at hlong
            cases hlong
        · have hobject := h.object (List.ne_nil_of_mem he)
          exact .part (heq ▸ hid) hobject (Object.mem_parts_mapping.mpr ⟨e, he, hue⟩)
            (ih ⟨n, rfl, hn⟩)
      · exact .part hid ho hu (ih hx)

theorem Read.exceedsDigits_of_put (h : c.Read) (hv : v.Plain)
    (hlong : w.exceedsDigits (c.put key v).document.objects = true) :
    w.exceedsDigits c.objects = true := by
  obtain ⟨n, hleads, hn⟩ := Value.exceedsDigits_iff.mp hlong
  exact Value.exceedsDigits_iff.mpr ⟨n, h.leads_of_put hv hleads ⟨n, rfl, hn⟩, hn⟩

end Config

end TaskLine
