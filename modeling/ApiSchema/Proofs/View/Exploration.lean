import ApiSchema.Proofs.Assembly.Contents
import ApiSchema.Proofs.Source.Provenance
import ApiSchema.Proofs.Store.Building

/-!
Exploring a document from schema to schema.

An exploration loads a document, asks the children of schemas and the handles of views for their
schemas, and views what it has found, in any order and as often as it likes, while the store is used
for other things as well. Whatever it comes upon, every place in it leads to where it came from in
the document.
-/

namespace ApiSchema

open Source (Schema Fragment Element Entry)

variable {v : Json} {store store' : Store} {id : SchemaId}

namespace Source.Schema

/-- The elements of a grounded schema, list by list. -/
theorem Grounded.elements {s : Schema Fragment} (h : s.Grounded v) (a : Applicator) :
    ∀ e ∈ s.elements a, e.origin.resolve? v = some e.value.value ∧ e.value.Grounded v := by
  intro e he
  unfold Schema.elements at he
  split at he
  next field hfield =>
    have hlist : Source.ElementsGrounded v Fragment.value field.value ∧
        ∀ e ∈ field.value, e.value.Grounded v := by
      cases a with
      | allOf => exact (h.fields .allOf field hfield).2
      | oneOf => exact (h.fields .oneOf field hfield).2
      | anyOf => exact (h.fields .anyOf field hfield).2
      | not => exact (h.fields .not field hfield).2
      | items => exact (h.fields .items field hfield).2
    exact ⟨hlist.1 e he, hlist.2 e he⟩
  next => cases he

theorem Grounded.entries {s : Schema Fragment} (h : s.Grounded v) :
    ∀ e ∈ s.entries, (e.keyAt.resolve? v = some e.value.value ∧
      e.valueAt.resolve? v = some e.value.value) ∧ e.value.Grounded v := by
  intro e he
  unfold Schema.entries at he
  split at he
  next field hfield =>
    obtain ⟨_, hentries, hfragments⟩ := h.fields .properties field hfield
    exact ⟨hentries e he, hfragments e he⟩
  next => cases he

end Source.Schema

namespace Store

/-- The elements of a stored schema are those that it shows. -/
theorem element_of_shows {t : Schema ChildId} {s : Schema Fragment} {a : Applicator}
    {e : Element ChildId} (hmap : t.map store.fragment? = s.map some) (he : e ∈ t.elements a) :
    ∃ e' ∈ s.elements a, store.fragment? e.value = some e'.value ∧ e.origin = e'.origin := by
  have hmem : e.map store.fragment? ∈ (s.elements a).map (Element.map some) := by
    rw [← Schema.elements_map, ← hmap, Schema.elements_map]
    exact List.mem_map_of_mem he
  obtain ⟨e', he', heq⟩ := List.mem_map.mp hmem
  obtain ⟨hvalue, horigin⟩ := Element.mk.inj heq
  exact ⟨e', he', hvalue.symm, horigin.symm⟩

theorem entry_of_shows {t : Schema ChildId} {s : Schema Fragment} {e : Entry ChildId}
    (hmap : t.map store.fragment? = s.map some) (he : e ∈ t.entries) :
    ∃ e' ∈ s.entries, store.fragment? e.value = some e'.value ∧ e.keyAt = e'.keyAt ∧
      e.valueAt = e'.valueAt := by
  have hmem : e.map store.fragment? ∈ s.entries.map (Entry.map some) := by
    rw [← Schema.entries_map, ← hmap, Schema.entries_map]
    exact List.mem_map_of_mem he
  obtain ⟨e', he', heq⟩ := List.mem_map.mp hmem
  obtain ⟨_, hkeyAt, hvalue, hvalueAt⟩ := Entry.mk.inj heq
  exact ⟨e', he', hvalue.symm, hkeyAt.symm, hvalueAt.symm⟩

/-- Something that is done to a store elsewhere. -/
inductive Activity (store : Store) : Store → Prop
  | add (s : Schema Fragment) : Activity store (Store.add s store).2
  | addFragment (fragment : Fragment) : Activity store (Store.addFragment fragment store).2
  | wrap (origin : Pointer) (id : SchemaId) :
      Activity store (Store.addChild ⟨origin, .built id⟩ store).2
  | copy (id : SchemaId) : Activity store (Store.copy id store).2
  | schemaOf (c : ChildId) : Activity store (Store.schemaOf c store).2

theorem Activity.grows (h : store.Activity store') : store.Grows store' := by
  cases h with
  | add s => exact (add_spec s store trivial).1.grows
  | addFragment fragment => exact (addFragment_spec fragment store trivial).1.grows
  | wrap origin id => exact (addChild_spec (c := ⟨origin, .built id⟩) nofun store trivial).1.grows
  | copy id => exact (addSchema_spec (store.schema id) store trivial).1.grows
  | schemaOf c => exact schemaOf_grows c store

end Store

/-- Something that an exploration comes upon. -/
inductive Find where
  | schema (id : SchemaId)
  | view (view : View)
  | error (e : LoadError)

namespace Find

/-- The children that a find leads on to: those of a stored schema, or those behind the handles of a
view. -/
inductive Leads (store : Store) : Find → ChildId → Prop
  | element {id : SchemaId} {t : Schema ChildId} {a : Applicator} {e : Element ChildId}
      (stored : store.schema? id = some t) (here : e ∈ t.elements a) :
      Leads store (.schema id) e.value
  | entry {id : SchemaId} {t : Schema ChildId} {e : Entry ChildId}
      (stored : store.schema? id = some t) (here : e ∈ t.entries) : Leads store (.schema id) e.value
  | handle {view : View} {a : Applicator} {h : Handle} (here : h ∈ view.handles a) :
      Leads store (.view view) h.child
  | property {view : View} {entry : String × Handle} (here : entry ∈ view.properties) :
      Leads store (.view view) entry.2.child

end Find

/-- The explorations of a document, with what they have come upon. A handle is opened by building
the schema behind it and viewing that. -/
inductive Explored (v : Json) : Store → List Find → Prop
  | start : Explored v {} []
  /-- The document is loaded. -/
  | load {store : Store} {finds : List Find} {s : Schema Fragment} (before : Explored v store finds)
      (accepted : Source.load .root v = .ok s) :
      Explored v (Store.add s store).2 (.schema (Store.add s store).1 :: finds)
  | refuse {store : Store} {finds : List Find} {e : LoadError} (before : Explored v store finds)
      (refused : Source.load .root v = .error e) : Explored v store (.error e :: finds)
  /-- A child is asked for its schema. -/
  | build {store : Store} {finds : List Find} {find : Find} {c : ChildId} {id : SchemaId}
      (before : Explored v store finds) (mem : find ∈ finds) (leads : find.Leads store c)
      (built : (Store.schemaOf c store).1 = .ok id) :
      Explored v (Store.schemaOf c store).2 (.schema id :: finds)
  | fail {store : Store} {finds : List Find} {find : Find} {c : ChildId} {e : LoadError}
      (before : Explored v store finds) (mem : find ∈ finds) (leads : find.Leads store c)
      (failed : (Store.schemaOf c store).1 = .error e) :
      Explored v (Store.schemaOf c store).2 (.error e :: finds)
  /-- A schema is viewed, whatever the workers and the schedule. -/
  | assemble {store : Store} {finds : List Find} {id : SchemaId} {t : Schema ChildId}
      {workers : Nat} {limit : Option Duration} {view : View} (before : Explored v store finds)
      (mem : .schema id ∈ finds) (stored : store.schema? id = some t)
      (assembled : Assembly.Assembles workers limit id t (.ok view)) :
      Explored v store (.view view :: finds)
  /-- A view is traced back to the schema it was made from. -/
  | source {store : Store} {finds : List Find} {view : View} (before : Explored v store finds)
      (mem : .view view ∈ finds) : Explored v store (.schema view.source :: finds)
  /-- The store is used for something else. -/
  | elsewhere {store store' : Store} {finds : List Find} (before : Explored v store finds)
      (activity : store.Activity store') : Explored v store' finds

/-- Every place in a handle leads to the fragment of the child behind it. -/
def Handle.Grounded (v : Json) (store : Store) (h : Handle) : Prop :=
  ∃ fragment, store.fragment? h.child = some fragment ∧ fragment.Grounded v ∧
    Source.Marks v h.valueAt fragment.value ∧
    ∀ p, h.keyAt = some p → p.resolve? v = some fragment.value

/-- Every place in a find leads to where it came from. -/
def Find.Grounded (v : Json) (store : Store) : Find → Prop
  | .schema id => ∃ s, store.Shows id s ∧ s.Grounded v
  | .view seen => (∀ a, ∀ h ∈ seen.handles a, h.Grounded v store) ∧
    ∀ entry ∈ seen.properties, entry.2.Grounded v store
  | .error e => e.Grounded v

/-- A stored schema was loaded from a part of the document. -/
def Store.Loaded (v : Json) (store : Store) (id : SchemaId) : Prop :=
  ∃ p w s, p.resolve? v = some w ∧ Source.load p w = .ok s ∧ store.Shows id s

def Find.Known (v : Json) (store : Store) : Find → Prop
  | .schema id => store.Loaded v id
  | .view seen => store.Loaded v seen.source ∧
    ∃ t, store.schema? seen.source = some t ∧ Assembly.Mirrors seen t
  | .error e => e.Grounded v

theorem Store.Grows.loaded (hgrows : store.Grows store') (h : store.Loaded v id) :
    store'.Loaded v id := by
  obtain ⟨p, w, s, hp, hload, hshows⟩ := h
  exact ⟨p, w, s, hp, hload, hgrows.shows hshows⟩

theorem Store.Grows.known (hgrows : store.Grows store') {find : Find} (h : find.Known v store) :
    find.Known v store' := by
  cases find with
  | schema id => exact hgrows.loaded h
  | view seen =>
      obtain ⟨hloaded, t, ht, hmirrors⟩ := h
      exact ⟨hgrows.loaded hloaded, t, hgrows.schemas _ t ht, hmirrors⟩
  | error e => exact h

/-- The children of a loaded schema show fragments of the document. -/
theorem Store.Loaded.element {t : Schema ChildId} (hv : v.Distinct) (h : store.Loaded v id)
    (ht : store.schema? id = some t) {a : Applicator} {e : Element ChildId}
    (he : e ∈ t.elements a) : (Handle.ofElement e).Grounded v store := by
  obtain ⟨p, w, s, hp, hload, t', ht', hmap⟩ := h
  obtain rfl := Option.some.inj (ht'.symm.trans ht)
  obtain ⟨e', he', hfragment, horigin⟩ := Store.element_of_shows hmap he
  obtain ⟨hplace, hgrounded⟩ := (Source.load_grounded hv hp hload).elements a e' he'
  exact ⟨e'.value, hfragment, hgrounded, ⟨_, rfl, horigin ▸ hplace⟩, nofun⟩

theorem Store.Loaded.entry {t : Schema ChildId} (hv : v.Distinct) (h : store.Loaded v id)
    (ht : store.schema? id = some t) {e : Entry ChildId} (he : e ∈ t.entries) :
    (Handle.ofEntry e).Grounded v store := by
  obtain ⟨p, w, s, hp, hload, t', ht', hmap⟩ := h
  obtain rfl := Option.some.inj (ht'.symm.trans ht)
  obtain ⟨e', he', hfragment, hkeyAt, hvalueAt⟩ := Store.entry_of_shows hmap he
  obtain ⟨⟨hkey, hvalue⟩, hgrounded⟩ := (Source.load_grounded hv hp hload).entries e' he'
  refine ⟨e'.value, hfragment, hgrounded, ⟨_, rfl, hvalueAt ▸ hvalue⟩, ?_⟩
  rintro p hkeyp
  cases hkeyp
  exact hkeyAt ▸ hkey

/-- A find leads on to children that show fragments of the document. -/
theorem Find.Known.leads (hv : v.Distinct) {find : Find} {c : ChildId} (h : find.Known v store)
    (hleads : find.Leads store c) :
    ∃ fragment, store.fragment? c = some fragment ∧ fragment.Grounded v := by
  cases hleads with
  | element stored here =>
      obtain ⟨fragment, hfragment, hgrounded, _⟩ := h.element hv stored here
      exact ⟨fragment, hfragment, hgrounded⟩
  | entry stored here =>
      obtain ⟨fragment, hfragment, hgrounded, _⟩ := h.entry hv stored here
      exact ⟨fragment, hfragment, hgrounded⟩
  | handle here =>
      obtain ⟨hloaded, t, ht, hmirrors⟩ := h
      obtain ⟨e, he, rfl⟩ := hmirrors.elements _ _ here
      obtain ⟨fragment, hfragment, hgrounded, _⟩ := hloaded.element hv ht he
      exact ⟨fragment, hfragment, hgrounded⟩
  | property here =>
      obtain ⟨hloaded, t, ht, hmirrors⟩ := h
      obtain ⟨e, he, heq⟩ := hmirrors.properties _ here
      obtain ⟨fragment, hfragment, hgrounded, _⟩ := hloaded.entry hv ht he
      exact ⟨fragment, by rw [heq]; exact hfragment, hgrounded⟩

theorem Find.Known.grounded (hv : v.Distinct) {find : Find} (h : find.Known v store) :
    find.Grounded v store := by
  cases find with
  | schema id =>
      obtain ⟨p, w, s, hp, hload, hshows⟩ := h
      exact ⟨s, hshows, Source.load_grounded hv hp hload⟩
  | view seen =>
      obtain ⟨hloaded, t, ht, hmirrors⟩ := h
      refine ⟨fun a handle hmem => ?_, fun entry hmem => ?_⟩
      · obtain ⟨e, he, rfl⟩ := hmirrors.elements a handle hmem
        exact hloaded.element hv ht he
      · obtain ⟨e, he, heq⟩ := hmirrors.properties entry hmem
        rw [heq]
        exact hloaded.entry hv ht he
  | error e => exact h

namespace Explored

variable {finds : List Find}

/-- The store stays sound, and everything found is known to come from the document. -/
theorem known (hv : v.Distinct) (h : Explored v store finds) :
    store.Sound ∧ ∀ find ∈ finds, find.Known v store := by
  induction h with
  | start => exact ⟨Store.sound_empty, List.forall_mem_nil _⟩
  | @load store finds s _ accepted ih =>
      obtain ⟨happends, hshows⟩ := Store.add_spec s store trivial
      refine ⟨happends.grows.sound ih.1, List.forall_mem_cons.mpr ⟨?_, fun find hfind => ?_⟩⟩
      · exact ⟨.root, v, s, Pointer.resolve?_root v, accepted, hshows⟩
      · exact happends.grows.known (ih.2 find hfind)
  | refuse _ refused ih =>
      exact ⟨ih.1, List.forall_mem_cons.mpr
        ⟨Source.load_error_grounded hv (Pointer.resolve?_root v) refused, ih.2⟩⟩
  | @build store finds find c id _ mem leads built ih =>
      obtain ⟨fragment, hfragment, hgrounded⟩ := (ih.2 find mem).leads hv leads
      have hgrows := Store.schemaOf_grows c store
      have hsettles := Store.schemaOf_settles ih.1 hfragment
      rw [built] at hsettles
      obtain ⟨s, hbuild, hshows⟩ := hsettles
      refine ⟨hgrows.sound ih.1, List.forall_mem_cons.mpr ⟨?_, fun find hfind => ?_⟩⟩
      · exact ⟨_, _, s, hgrounded, Source.load_of_build hbuild, hshows⟩
      · exact hgrows.known (ih.2 find hfind)
  | @fail store finds find c e _ mem leads failed ih =>
      obtain ⟨fragment, hfragment, hgrounded⟩ := (ih.2 find mem).leads hv leads
      have hgrows := Store.schemaOf_grows c store
      have hsettles := Store.schemaOf_settles ih.1 hfragment
      rw [failed] at hsettles
      refine ⟨hgrows.sound ih.1, List.forall_mem_cons.mpr ⟨?_, fun find hfind => ?_⟩⟩
      · exact Source.build_error_grounded hv hgrounded hsettles
      · exact hgrows.known (ih.2 find hfind)
  | @assemble store finds id t _ _ view _ mem stored assembled ih =>
      obtain ⟨rfl, hmirrors⟩ := assembled.mirrors
      exact ⟨ih.1, List.forall_mem_cons.mpr ⟨⟨ih.2 _ mem, t, stored, hmirrors⟩, ih.2⟩⟩
  | source _ mem ih => exact ⟨ih.1, List.forall_mem_cons.mpr ⟨(ih.2 _ mem).1, ih.2⟩⟩
  | elsewhere _ activity ih =>
      exact ⟨activity.grows.sound ih.1, fun find hfind => activity.grows.known (ih.2 find hfind)⟩

/-- Whatever an exploration comes upon, every place in it leads to where it came from. -/
theorem finds_grounded (hv : v.Distinct) (h : Explored v store finds) :
    ∀ find ∈ finds, find.Grounded v store :=
  fun find hfind => ((h.known hv).2 find hfind).grounded hv

def referenceDocument : Json :=
  .obj [("items", .obj [("$ref", .str "#/a")])]

def referenceSchema : Schema Fragment where
  items := some (.loaded ⟨"/items"⟩
    [⟨⟨⟨"/items"⟩, .obj [("$ref", .str "#/a")]⟩, ⟨"/items"⟩⟩])

/-- Following the reference fails at its place. -/
theorem finds_grounded_reference : ∃ store finds, Explored referenceDocument store finds ∧
    Find.error (.unresolvedReference ⟨"/items"⟩ "#/a") ∈ finds ∧
    ∀ find ∈ finds, find.Grounded referenceDocument store := by
  have hloaded : Explored referenceDocument _ _ :=
    Explored.start.load (s := referenceSchema) rfl
  have hfailed : Explored referenceDocument _ _ :=
    hloaded.fail (c := ⟨0⟩) (e := .unresolvedReference ⟨"/items"⟩ "#/a") List.mem_cons_self
      (.element (t := { items := some (.loaded ⟨"/items"⟩ [⟨⟨0⟩, ⟨"/items"⟩⟩]) })
        (a := .items) (e := ⟨⟨0⟩, ⟨"/items"⟩⟩) rfl List.mem_cons_self) rfl
  exact ⟨_, _, hfailed, List.mem_cons_self, finds_grounded (by decide) hfailed⟩

end Explored
end ApiSchema
