import ApiSchema.Proofs.Sharing.Informed
import ApiSchema.Proofs.View.Equality

/-!
Equality of views is identity of where they come from.

A session loads any number of documents, goes from schema to schema in them, and views what it has
come by, as often as it likes and while the store is used elsewhere. Two of its views are equal if
and only if they were made from the same schema: the views of one schema show the same, and every
load makes a schema of its own.
-/

namespace ApiSchema

open Source (Schema Fragment load)

variable {f g : Fragment} {step : Step} {store store' : Store} {id : SchemaId} {c : ChildId}
  {view : View}

namespace Source.Fragment

/-- A fragment that can be there: its value lies in memory, and no real in it is a not-a-number. -/
structure Present (f : Fragment) : Prop where
  memory : f.value.InMemory
  numeric : f.value.numeric = true

/-- What is nested in a fragment is a part of its value. -/
theorem Nests.part (h : f.Nests step g) : ∃ p : Pointer, p.resolve? f.value = some g.value := by
  have hroot : ∃ g', Nests ⟨.root, f.value⟩ step g' ∧ g'.value = g.value := by
    cases h with
    | item list here => exact ⟨_, .item list here, rfl⟩
    | lone allowed alone => exact ⟨_, .lone allowed alone, rfl⟩
    | property object here => exact ⟨_, .property object here, rfl⟩
  obtain ⟨g', hnests, hvalue⟩ := hroot
  exact ⟨g'.origin, hvalue ▸ hnests.grounded (Pointer.resolve?_root f.value)⟩

theorem Present.nests (h : f.Present) (hnests : f.Nests step g) : g.Present := by
  obtain ⟨p, hp⟩ := hnests.part
  exact ⟨h.memory.part hp, Pointer.resolve?_numeric h.numeric hp⟩

end Source.Fragment

/-- What a session has come by: the schemas of documents it has loaded, all schemas, children that
it can ask for theirs, and views, each with the schema it was made from. -/
structure Session where
  store : Store := {}
  loads : List SchemaId := []
  schemas : List SchemaId := []
  children : List ChildId := []
  views : List (SchemaId × View) := []

namespace Session

/-- What can happen in a session. -/
inductive Moves (x : Session) : Session → Prop
  /-- A value is loaded as a document. -/
  | load {p : Pointer} {v : Json} {s : Schema Fragment} (present : Fragment.Present ⟨p, v⟩)
      (accepted : Source.load p v = .ok s) :
      Moves x { x with
        store := (Store.add s x.store).2
        loads := (Store.add s x.store).1 :: x.loads
        schemas := (Store.add s x.store).1 :: x.schemas }
  /-- A deferred child is made by hand. -/
  | defer {f : Fragment} (present : f.Present) :
      Moves x { x with
        store := (Store.addFragment f x.store).2
        children := (Store.addFragment f x.store).1 :: x.children }
  /-- A child is made by hand from a schema. -/
  | wrap {id : SchemaId} (origin : Pointer) (mem : id ∈ x.schemas) :
      Moves x { x with
        store := (Store.addChild ⟨origin, .built id⟩ x.store).2
        children := (Store.addChild ⟨origin, .built id⟩ x.store).1 :: x.children }
  /-- A child is taken from a schema. -/
  | child {id : SchemaId} {step : Step} {c : ChildId} (mem : id ∈ x.schemas)
      (found : (x.store.schema id).step? step = some c) :
      Moves x { x with children := c :: x.children }
  /-- A child is taken from a handle of a view. -/
  | handle {id : SchemaId} {view : View} {step : Step} {handle : Handle} (mem : (id, view) ∈ x.views)
      (found : view.handle? step = some handle) :
      Moves x { x with children := handle.child :: x.children }
  /-- A child answers with its schema. -/
  | ask {c : ChildId} {id : SchemaId} (mem : c ∈ x.children)
      (answer : (Store.schemaOf c x.store).1 = .ok id) :
      Moves x { x with store := (Store.schemaOf c x.store).2, schemas := id :: x.schemas }
  /-- A schema is viewed by any number of workers, within any limit, under any schedule. -/
  | view {id : SchemaId} {workers : Nat} {limit : Option Duration} {view : View}
      (mem : id ∈ x.schemas)
      (assembled : Assembly.Assembles workers limit id (x.store.schema id) (.ok view)) :
      Moves x { x with views := (id, view) :: x.views }
  /-- The store is used elsewhere. -/
  | elsewhere {store : Store} (activity : x.store.Activity store) : Moves x { x with store := store }

/-- The sessions that can come about. -/
inductive Reached : Session → Prop
  | start : Reached {}
  | next {x y : Session} (before : Reached x) (moves : x.Moves y) : Reached y

/-- A child that answers, if at all, with a schema that was loaded from a fragment: it is made from
such a schema, or deferred. -/
inductive Promises (store : Store) (c : ChildId) : Prop
  | deferred {f : Fragment} (present : f.Present) (shown : store.fragment? c = some f)
  | built {origin : Pointer} {id : SchemaId} {f : Fragment}
      (here : store.child? c = some ⟨origin, .built id⟩) (present : f.Present)
      (stored : f.StoredAt store id)

theorem Promises.grows (h : Promises store c) (hgrows : store.Grows store') :
    Promises store' c := by
  cases h with
  | deferred present shown => exact .deferred present (hgrows.fragment? shown)
  | built here present stored =>
      obtain ⟨c', hc', hbecomes⟩ := hgrows.children c _ here
      cases hbecomes with
      | same => exact .built hc' present (hgrows.storedAt stored)
      | built unbuilt _ => cases unbuilt

/-- A child answers with a schema that was loaded from a fragment. -/
theorem Promises.answer (h : Promises store c) (hsound : store.Sound)
    (hanswer : (Store.schemaOf c store).1 = .ok id) :
    ∃ f : Fragment, f.Present ∧ f.StoredAt (Store.schemaOf c store).2 id := by
  cases h with
  | @deferred f present shown =>
      have hsettles := Store.schemaOf_settles hsound shown
      rw [hanswer] at hsettles
      obtain ⟨s, hbuild, hshows⟩ := hsettles
      exact ⟨f, present, s, Source.load_of_build hbuild, hshows⟩
  | @built origin id' f here present stored =>
      have hcontent : (store.child c).content = .built id' := by rw [Store.child_of_child? here]
      rw [Store.schemaOf_built hcontent] at hanswer ⊢
      cases hanswer
      exact ⟨f, present, stored⟩

/-- What is known of all that a session has come by. -/
structure Known (x : Session) : Prop where
  sound : x.store.Sound
  schemas : ∀ id ∈ x.schemas, ∃ f : Fragment, f.Present ∧ f.StoredAt x.store id
  children : ∀ c ∈ x.children, Promises x.store c
  views : ∀ e ∈ x.views, e.2.source = e.1 ∧ ∃ f, f.Present ∧ e.2.Pictures x.store f
  loads : ∀ id ∈ x.loads, ∃ t, x.store.schema? id = some t
  distinct : x.loads.Nodup

namespace Known

variable {x : Session}

/-- What is known stays so while the store grows. -/
theorem grows (h : x.Known) (hgrows : x.store.Grows store) : Known { x with store := store } where
  sound := hgrows.sound h.sound
  schemas id hid := by
    obtain ⟨f, hf, hstored⟩ := h.schemas id hid
    exact ⟨f, hf, hgrows.storedAt hstored⟩
  children c hc := (h.children c hc).grows hgrows
  views e he := by
    obtain ⟨hsource, f, hf, hpictures⟩ := h.views e he
    exact ⟨hsource, f, hf, hpictures.grows hgrows⟩
  loads id hid := by
    obtain ⟨t, ht⟩ := h.loads id hid
    exact ⟨t, hgrows.schemas id t ht⟩
  distinct := h.distinct

theorem addSchema (h : x.Known) (hf : f.Present) (hstored : f.StoredAt x.store id) :
    Known { x with schemas := id :: x.schemas } :=
  { h with schemas := List.forall_mem_cons.mpr ⟨⟨f, hf, hstored⟩, h.schemas⟩ }

theorem addChild (h : x.Known) (hc : Promises x.store c) :
    Known { x with children := c :: x.children } :=
  { h with children := List.forall_mem_cons.mpr ⟨hc, h.children⟩ }

/-- A schema that is stored for a new load is not one of those before. -/
theorem addLoad (h : x.Known) (s : Schema Fragment) :
    Known { x with store := (Store.add s x.store).2, loads := (Store.add s x.store).1 :: x.loads } := by
  obtain ⟨happends, t, ht, _⟩ := Store.add_spec s x.store trivial
  have hgrown := h.grows happends.grows
  refine { hgrown with
    loads := List.forall_mem_cons.mpr ⟨⟨t, ht⟩, hgrown.loads⟩
    distinct := List.nodup_cons.mpr ⟨fun hmem => ?_, h.distinct⟩ }
  obtain ⟨t', ht'⟩ := h.loads _ hmem
  rw [Store.schema?_add] at ht'
  cases ht'

theorem moves (h : x.Known) {y : Session} (hmoves : x.Moves y) : y.Known := by
  cases hmoves with
  | @load p v s present accepted =>
      exact (h.addLoad s).addSchema present ⟨s, accepted, (Store.add_spec s x.store trivial).2⟩
  | @defer f present =>
      obtain ⟨happends, hshown⟩ := Store.addFragment_spec f x.store trivial
      exact (h.grows happends.grows).addChild (.deferred present hshown)
  | @wrap id origin mem =>
      obtain ⟨f, hf, hstored⟩ := h.schemas id mem
      obtain ⟨happends, hhere⟩ :=
        Store.addChild_spec (c := ⟨origin, .built id⟩) nofun x.store trivial
      exact (h.grows happends.grows).addChild (.built hhere hf (happends.grows.storedAt hstored))
  | @child id step c mem found =>
      obtain ⟨f, hf, hstored⟩ := h.schemas id mem
      obtain ⟨g, hnests, hshown⟩ := hstored.nests found
      exact h.addChild (.deferred (hf.nests hnests) hshown)
  | @handle id view step handle mem found =>
      obtain ⟨_, f, hf, hpictures⟩ := h.views _ mem
      obtain ⟨g, hnests, hshown, _⟩ := hpictures.nests found
      exact h.addChild (.deferred (hf.nests hnests) hshown)
  | @ask c id mem answer =>
      obtain ⟨f, hf, hstored⟩ := (h.children c mem).answer h.sound answer
      exact (h.grows (Store.schemaOf_grows c x.store)).addSchema hf hstored
  | @view id workers limit view mem assembled =>
      obtain ⟨f, hf, s, hload, hshows⟩ := h.schemas id mem
      refine { h with views := List.forall_mem_cons.mpr ⟨?_, h.views⟩ }
      rcases Store.view_or_timeout_of_shows hf.memory hload hshows assembled with
        hview | ⟨_, _, _, htimeout⟩
      · cases hview
        exact ⟨rfl, f, hf, ⟨s, hload, hshows⟩, rfl⟩
      · cases htimeout
  | elsewhere activity => exact h.grows activity.grows

/-- Every schema can be viewed. -/
theorem exists_view (h : x.Known) (mem : id ∈ x.schemas) {workers : Nat} (hworkers : 1 ≤ workers) :
    ∃ view, Assembly.Assembles workers none id (x.store.schema id) (.ok view) := by
  obtain ⟨f, hf, s, hload, hshows⟩ := h.schemas id mem
  have hmemory := Nat.lt_trans (Store.units_of_shows hload hshows) hf.memory.addressable
  obtain ⟨_, _, hassembles⟩ :=
    Assembly.exists_assemble id hmemory hworkers (Latch.overflows_none 0)
  obtain ⟨view, rfl, _⟩ := View.pictures_of_assembles hf.memory hload hshows hassembles
  exact ⟨view, hassembles⟩

/-- Views are equal if and only if they were made from the same schema. -/
theorem same_iff (h : x.Known) {a b : SchemaId × View} (ha : a ∈ x.views) (hb : b ∈ x.views) :
    a.2.same b.2 = true ↔ a.1 = b.1 := by
  obtain ⟨hsource, f, hf, hpictures⟩ := h.views a ha
  obtain ⟨hsource', g, _, hpictures'⟩ := h.views b hb
  constructor
  · intro hsame
    by_contra hne
    rw [View.same_eq_false (by rw [hsource, hsource']; exact hne)] at hsame
    cases hsame
  · intro heq
    have hviews : a.2 = b.2 := by
      rw [hpictures.made, hpictures'.made, hsource, hsource', heq]
    rw [← hviews]
    exact hpictures.same_self hf.memory.distinct hf.numeric

end Known

theorem Reached.known {x : Session} (h : x.Reached) : x.Known := by
  induction h with
  | start => exact ⟨Store.sound_empty, by simp, by simp, by simp, by simp, List.nodup_nil⟩
  | next _ moves ih => exact ih.moves moves

/-- In a session two views are equal if and only if they were made from the same schema. Views of
schemas from different loads are not, even if the same document was loaded. -/
theorem views_same_iff {x : Session} (h : x.Reached) :
    (∀ a ∈ x.views, ∀ b ∈ x.views, (a.2.same b.2 = true ↔ a.1 = b.1)) ∧
      x.loads.Pairwise fun id id' => ∀ a b, (id, a) ∈ x.views → (id', b) ∈ x.views →
        a.same b = false ∧ b.same a = false := by
  have hknown := h.known
  refine ⟨fun a ha b hb => hknown.same_iff ha hb, hknown.distinct.imp fun hne a b ha hb => ?_⟩
  constructor
  · exact Bool.eq_false_iff.mpr fun hsame => hne ((hknown.same_iff ha hb).mp hsame)
  · exact Bool.eq_false_iff.mpr fun hsame => hne ((hknown.same_iff hb ha).mp hsame).symm

def petDocument : Json :=
  .obj [("title", .str "Pet"), ("items", .obj [("type", .str "integer")])]

/-- Two views of one load of the document are equal, and a view of another load is not. -/
theorem views_same_iff_pet : ∃ (x : Session) (a b c : View), x.Reached ∧ x.loads = [⟨3⟩, ⟨1⟩] ∧
    x.views = [(⟨3⟩, c), (⟨1⟩, b), (⟨1⟩, a)] ∧ a.same b = true ∧ a.same c = false := by
  have hpresent : Fragment.Present ⟨.root, petDocument⟩ := ⟨⟨by decide, by decide⟩, by decide⟩
  have hload : Reached _ := .next .start (.load hpresent rfl)
  have hreload : Reached _ := .next hload (.load hpresent rfl)
  have hone : ⟨1⟩ ∈ [SchemaId.mk 3, ⟨1⟩] := List.mem_cons_of_mem _ List.mem_cons_self
  obtain ⟨a, ha⟩ := hreload.known.exists_view hone (Nat.le_refl 1)
  obtain ⟨c, hc⟩ := hreload.known.exists_view List.mem_cons_self (Nat.le_refl 1)
  have hfirst : Reached _ := .next hreload (.view hone ha)
  have hagain : Reached _ := .next hfirst (.view hone ha)
  have hother : Reached _ := .next hagain (.view List.mem_cons_self hc)
  obtain ⟨hsame, hapart⟩ := views_same_iff hother
  refine ⟨_, a, a, c, hother, rfl, rfl, ?_, ?_⟩
  · exact (hsame (⟨1⟩, a) (by simp) (⟨1⟩, a) (by simp)).mpr rfl
  · exact ((List.pairwise_cons.mp hapart).1 ⟨1⟩ List.mem_cons_self c a (by simp) (by simp)).2

end Session
end ApiSchema
