import ApiSchema.Proofs.Assembly.Repeated
import ApiSchema.Proofs.Store.Descent

/-!
No map of a loaded schema has a key twice.

The maps of a schema are its properties, the mapping of its discriminator, and the extensions of the
schema itself, of its XML metadata and of its documentation. They are read from objects that repeat
no key, whatever way leads down to the schema. So viewing a loaded schema never finds repeated keys;
only a schema that was made by hand can have them.
-/

namespace ApiSchema

open Source (Schema Fragment Entry Field)

theorem Json.Distinct.keys {members : OrderedMap Json} (h : (Json.obj members).Distinct) :
    (OrderedMap.keys members).Nodup := by
  cases h with
  | obj keys _ => exact keys

namespace Source

variable {C D : Type} {p : Pointer} {v w : Json} {members : OrderedMap Json} {f g : Fragment}
  {s : Schema Fragment}

/-- The maps of a schema have each of their keys once. -/
structure Schema.KeysApart (s : Schema C) : Prop where
  properties : (s.entries.map (·.key)).Nodup
  extensions : (s.extensions.map (·.key)).Nodup
  mapping : ∀ field, s.discriminator = some field → (field.value.mapping.map (·.key)).Nodup
  xml : ∀ field, s.xml = some field → (field.value.extensions.map (·.key)).Nodup
  externalDocs : ∀ field, s.externalDocs = some field →
    (field.value.extensions.map (·.key)).Nodup

/-- Extensions are some of the members of an object. -/
theorem Extends.nodup {xs : List (Entry Json)} (h : Extends p members xs)
    (hkeys : (OrderedMap.keys members).Nodup) : (xs.map (·.key)).Nodup := by
  have heq : xs.map (·.key) = (members.filter fun m => isExtensionKey m.1).map Prod.fst := by
    rw [← h.1, List.map_map]
    rfl
  rw [heq]
  exact hkeys.sublist (List.filter_sublist.map Prod.fst)

theorem IsMapping.nodup {xs : List (Entry String)} (h : IsMapping p members xs)
    (hmembers : (Json.obj members).Distinct) : (xs.map (·.key)).Nodup := by
  unfold IsMapping at h
  split at h
  · rw [h]
    exact List.nodup_nil
  next w hmember =>
    obtain ⟨rfl, _⟩ := h
    cases Json.member?_distinct (v := .obj members) hmembers hmember with
    | obj keys _ => simpa [OrderedMap.keys, Function.comp_def] using keys

/-- Whatever is loaded from a value that repeats no key has its keys apart. -/
theorem load_keysApart (hv : v.Distinct) (h : load p v = .ok s) : s.KeysApart := by
  obtain ⟨members, rfl, hreads⟩ := load_reads h
  have hkept : ∀ {k : Keyword} {field : Field (k.Value Fragment)}, s.get k = some field →
      ∃ w : Json, w.Distinct ∧ k.shape.Reads (p.child k.name) w field.value := by
    intro k field hfield
    rcases (hreads.fields k).cases with ⟨_, hnone⟩ | ⟨w, field', hw, hsome, _, _, hread⟩
    · cases hnone.symm.trans hfield
    · cases hsome.symm.trans hfield
      exact ⟨w, Json.member?_distinct (v := .obj members) hv hw, hread⟩
  refine ⟨?_, hreads.extensions.nodup hv.keys, fun field hfield => ?_, fun field hfield => ?_,
    fun field hfield => ?_⟩
  · rw [load_entries (f := ⟨p, .obj members⟩) h, List.map_map]
    exact Fragment.nodup_entries hv
  · obtain ⟨w, hw, inner, rfl, hread⟩ := hkept (k := .discriminator) hfield
    exact hread.mapping.nodup hw
  · obtain ⟨w, hw, inner, rfl, hread⟩ := hkept (k := .xml) hfield
    exact hread.extensions.nodup hw.keys
  · obtain ⟨w, hw, inner, rfl, hread⟩ := hkept (k := .externalDocs) hfield
    exact hread.extensions.nodup hw.keys

/-- The keys of a schema have nothing to do with its nested schemas. -/
theorem Schema.KeysApart.of_map_eq {E : Type} {f : C → E} {g : D → E} {s : Schema C}
    {t : Schema D} (h : t.KeysApart) (heq : s.map f = t.map g) : s.KeysApart := by
  have hentries := congrArg (fun s => s.entries.map (·.key)) heq
  simp only [Schema.entries_map, List.map_map] at hentries
  refine ⟨?_, ?_, ?_, ?_, ?_⟩
  · exact (show s.entries.map (·.key) = t.entries.map (·.key) from hentries) ▸ h.properties
  · exact (congrArg Schema.extensions heq : s.extensions = t.extensions) ▸ h.extensions
  · exact (congrArg Schema.discriminator heq : s.discriminator = t.discriminator) ▸ h.mapping
  · exact (congrArg Schema.xml heq : s.xml = t.xml) ▸ h.xml
  · exact (congrArg Schema.externalDocs heq : s.externalDocs = t.externalDocs) ▸ h.externalDocs

namespace Fragment

variable {step : Step} {path : List Step} {count : Nat}

theorem Nests.distinct (h : f.Nests step g) (hf : f.value.Distinct) : g.value.Distinct := by
  cases h with
  | item list here =>
      cases Json.member?_distinct hf list with
      | arr distinct => exact distinct _ (List.mem_of_getElem? here)
  | lone _ alone => exact Json.member?_distinct hf alone
  | property object here =>
      cases Json.member?_distinct hf object with
      | obj _ distinct => exact distinct _ (OrderedMap.mem_of_get? here)

theorem distinct_of_follow (hf : f.value.Distinct) (h : f.follow count path = .ok g) :
    g.value.Distinct := by
  induction path generalizing f count with
  | nil =>
      cases h
      exact hf
  | cons step rest ih =>
      rw [follow] at h
      split at h
      · cases h
      next g' hstep =>
        split at h
        · cases h
        · exact ih ((nests_of_step? hstep).distinct hf) h

end Fragment
end Source

namespace Store

variable {store : Store} {id : SchemaId} {f : Fragment} {p : Pointer} {v : Json}

theorem keysApart_of_storedAt (hf : f.value.Distinct) (h : f.StoredAt store id) :
    (store.schema id).KeysApart := by
  obtain ⟨s, hload, t, ht, hmap⟩ := h
  rw [schema_of_schema? ht]
  exact (Source.load_keysApart hf hload).of_map_eq hmap

/-- No way down from a stored schema leads to one with a repeated key. -/
structure NeverRepeats (store : Store) (id : SchemaId) : Prop where
  apart : ∀ path store' id', Descends 0 store id path store' (.ok id') →
    (store'.schema id').KeysApart
  /-- No view of one is refused for repeated keys. -/
  accepted : ∀ path store' id', Descends 0 store id path store' (.ok id') →
    ∀ workers limit h key origin, ¬ Assembly.Performs workers limit id' (store'.schema id') h
      (.error (.duplicateProperty key origin))

theorem Holds.neverRepeats (hv : v.Distinct) (hholds : Holds p v id store) :
    store.NeverRepeats id := by
  have hapart : ∀ path store' id', Descends 0 store id path store' (.ok id') →
      (store'.schema id').KeysApart := by
    intro path store' id' hdescends
    cases hdescends.reaches hholds.sound hholds.storedAt with
    | arrived follows stored =>
        exact keysApart_of_storedAt (Fragment.distinct_of_follow hv follows) stored
  refine ⟨hapart, fun path store' id' hdescends workers limit h key origin hperforms => ?_⟩
  have hrepeated := ((Assembly.catchesRepeats id' _).reported hperforms).mp ⟨key, origin, rfl⟩
  exact Assembly.repeated_iff_not_nodup.mp hrepeated (hapart path store' id' hdescends).properties

/-- Repeated properties are refused exactly, whatever the schema, and no loaded schema has any. -/
theorem repeats_caught :
    (∀ id source, Assembly.CatchesRepeats id source) ∧
      ∀ {p v id store}, v.Distinct → Holds p v id store → store.NeverRepeats id :=
  ⟨Assembly.catchesRepeats, fun hv hholds => hholds.neverRepeats hv⟩

/-- A schema made by hand whose third property has the key of the first. -/
def thriceSource : Schema ChildId where
  properties := some (.detached
    [⟨"a", ⟨"/x/a"⟩, ⟨0⟩, ⟨"/x/a"⟩⟩, ⟨"b", ⟨"/x/b"⟩, ⟨1⟩, ⟨"/x/b"⟩⟩, ⟨"a", ⟨"/y/a"⟩, ⟨2⟩, ⟨"/y/a"⟩⟩,
      ⟨"b", ⟨"/y/b"⟩, ⟨3⟩, ⟨"/y/b"⟩⟩])

def nestedProperties : Json :=
  .obj [("properties", .obj [("a", .obj [("properties", .obj [("a", .obj [])])]), ("b", .obj [])])]

/-- The third property is reported with its place, and no property of the document below `a`. -/
theorem repeats_caught_thrice :
    Assembly.assemble 2 none ⟨0⟩ thriceSource = some (.error (.duplicateProperty "a" ⟨"/y/a"⟩)) ∧
      ∃ id store, Holds .root nestedProperties id store ∧ store.NeverRepeats id := by
  have hcaught := repeats_caught.1 ⟨0⟩ thriceSource
  have hholds : Holds .root nestedProperties _ _ := .intro .now rfl .now
  refine ⟨(hcaught.assembled 2 none _ _).mpr ⟨2, _, ⟨rfl, by decide, by decide⟩, rfl, rfl⟩, _, _,
    hholds, repeats_caught.2 (by decide) hholds⟩

end Store
end ApiSchema
