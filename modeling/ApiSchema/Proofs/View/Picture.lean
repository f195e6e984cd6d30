import ApiSchema.Proofs.Assembly.Refinement
import ApiSchema.Proofs.Source.Descent
import ApiSchema.Proofs.Store.Building
import ApiSchema.Proofs.View.Exploration

/-!
Views as pictures of the document.

A view pictures a fragment if the schema it was made from is the one that the fragment loads as, and
it is the view of that schema. Its handles then stand for the nested schemas of the fragment.
Opening one of them, under whatever schedule and whatever else is done to the store, gives the
reason why the fragment behind it has no schema, or a view that pictures it.
-/

namespace ApiSchema

open Source (Schema Fragment load)

variable {store store' : Store} {v w : Json} {p : Pointer} {f g : Fragment} {view : View}
  {handle : Handle} {step : Step} {id : SchemaId} {s : Schema Fragment}

/-- A value as it lies in memory: no object repeats a key, and there is an address for each part. -/
structure Json.InMemory (v : Json) : Prop where
  distinct : v.Distinct
  addressable : v.size < 2 ^ 63

theorem Json.InMemory.part (hv : v.InMemory) (h : p.resolve? v = some w) : w.InMemory :=
  ⟨Pointer.resolve?_distinct hv.distinct h,
    Nat.lt_of_le_of_lt (Pointer.resolve?_size h) hv.addressable⟩

namespace Store

/-- What may become of a store while it is used elsewhere. -/
inductive Later (store : Store) : Store → Prop
  | now : Later store store
  | after {store' store'' : Store} (before : Later store store')
      (activity : store'.Activity store'') : Later store store''

theorem Later.grows (h : store.Later store') : store.Grows store' := by
  induction h with
  | now => exact .refl store
  | after _ activity ih => exact ih.trans activity.grows

/-- A value that stands at a place has been loaded, and its schema stored, by whoever uses the
store. -/
inductive Holds (p : Pointer) (v : Json) : SchemaId → Store → Prop
  | intro {before store : Store} {s : Schema Fragment} (start : Later {} before)
      (accepted : load p v = .ok s) (later : Later (add s before).2 store) :
      Holds p v (add s before).1 store

theorem Holds.sound (h : Holds p v id store) : store.Sound := by
  cases h with
  | @intro before _ s start accepted later =>
      have hadd := (add_spec s before trivial).1.grows
      exact (start.grows.trans (hadd.trans later.grows)).sound sound_empty

theorem Holds.shows (h : Holds p v id store) :
    ∃ s, load p v = .ok s ∧ store.Shows id s := by
  cases h with
  | @intro before _ s start accepted later =>
      exact ⟨s, accepted, later.grows.shows (add_spec s before trivial).2⟩

/-- The lists of a stored schema, by what is known of the children in them. -/
theorem elements_of_shows (hload : load f.origin f.value = .ok s) (hshows : store.Shows id s)
    (a : Applicator) :
    ((store.schema id).elements a).map (fun e => (store.fragment? e.value, e.origin)) =
      (f.elements a).map fun g => (some g, g.origin) := by
  obtain ⟨t, ht, hmap⟩ := hshows
  have helements := congrArg (fun s => (s.elements a).map fun e => (e.value, e.origin)) hmap
  simp only [Schema.elements_map, List.map_map, Source.load_elements hload] at helements
  rw [schema_of_schema? ht]
  exact helements

theorem entries_of_shows (hload : load f.origin f.value = .ok s) (hshows : store.Shows id s) :
    (store.schema id).entries.map (fun e => (e.key, store.fragment? e.value, e.keyAt, e.valueAt)) =
      f.entries.map fun e => (e.1, some e.2, e.2.origin, e.2.origin) := by
  obtain ⟨t, ht, hmap⟩ := hshows
  have hentries := congrArg
    (fun s => s.entries.map fun e => (e.key, e.value, e.keyAt, e.valueAt)) hmap
  simp only [Schema.entries_map, List.map_map, Source.load_entries hload] at hentries
  rw [schema_of_schema? ht]
  exact hentries

theorem keys_of_shows (hf : f.value.Distinct) (hload : load f.origin f.value = .ok s)
    (hshows : store.Shows id s) : ((store.schema id).entries.map (·.key)).Nodup := by
  have hkeys := congrArg (List.map Prod.fst) (entries_of_shows hload hshows)
  rw [List.map_map, List.map_map] at hkeys
  exact hkeys ▸ Fragment.nodup_entries hf

/-- A schema has no more nested schemas than its document has parts. -/
theorem units_of_shows (hload : load f.origin f.value = .ok s) (hshows : store.Shows id s) :
    (Assembly.Task.ofSource (store.schema id)).units < f.value.size := by
  have hlists : ∀ a, ((store.schema id).elements a).length = (f.elements a).length := by
    intro a
    simpa using congrArg List.length (elements_of_shows hload hshows a)
  have hentries : (store.schema id).entries.length = f.entries.length := by
    simpa using congrArg List.length (entries_of_shows hload hshows)
  obtain ⟨members, hvalue, _⟩ := Source.load_reads hload
  have hsize := Fragment.branches_size hvalue
  have hlength := Step.length_listing f.elements f.entries
  have hone : f.branches.length ≤ (f.branches.map fun b => b.2.value.size).sum := by
    refine Nat.le_trans (Nat.le_of_eq (List.length_map _).symm) (List.length_le_sum_of_one_le _ ?_)
    intro size hsize
    obtain ⟨b, _, rfl⟩ := List.mem_map.mp hsize
    exact Json.one_le_size b.2.value
  rw [Assembly.units_ofSource]
  simp only [hlists, hentries]
  unfold Fragment.branches at *
  omega

/-- An assembly of a stored schema comes to the view that is made in sequence, or past its limit. -/
theorem view_or_timeout_of_shows {workers : Nat} {limit : Option Duration}
    {result : Except Failure View} (hf : f.value.InMemory) (hload : load f.origin f.value = .ok s)
    (hshows : store.Shows id s)
    (h : Assembly.Assembles workers limit id (store.schema id) result) :
    result = .ok (Assembly.sequential id (store.schema id)) ∨
      ∃ elapsed bound, limit = some bound ∧ result = .error (.timeout elapsed bound) := by
  have hkeys := keys_of_shows hf.distinct hload hshows
  have hmemory := Nat.lt_trans (units_of_shows hload hshows) hf.addressable
  refine (h.eq_or_timeout hkeys hmemory).imp_right ?_
  rintro ⟨elapsed, bound, hlimit, _, hresult⟩
  exact ⟨elapsed, bound, hlimit, hresult⟩

end Store

/-- What can be told of a handle without opening it: the fragment behind it, and its place. -/
def Handle.glimpse (store : Store) (handle : Handle) : Option Fragment × Option Pointer :=
  (store.fragment? handle.child, handle.valueAt)

def Source.Fragment.glimpse (f : Fragment) : Option Fragment × Option Pointer :=
  (some f, some f.origin)

namespace View

/-- A view shows what a fragment holds: it is the view of a stored schema, the one that the fragment
loads as. -/
structure Pictures (store : Store) (view : View) (f : Fragment) : Prop where
  stored : ∃ s, load f.origin f.value = .ok s ∧ store.Shows view.source s
  made : view = Assembly.sequential view.source (store.schema view.source)

theorem handles_sequential (id : SchemaId) (s : Schema ChildId) (a : Applicator) :
    (Assembly.sequential id s).handles a = Assembly.handlesOf s a := by
  cases a <;> rfl

namespace Pictures

theorem grows (h : view.Pictures store f) (hgrows : store.Grows store') :
    view.Pictures store' f := by
  obtain ⟨s, hload, hshows⟩ := h.stored
  obtain ⟨t, ht, _⟩ := id hshows
  refine ⟨⟨s, hload, hgrows.shows hshows⟩, ?_⟩
  rw [Store.schema_of_schema? (hgrows.schemas _ t ht), ← Store.schema_of_schema? ht]
  exact h.made

theorem handles (h : view.Pictures store f) (a : Applicator) :
    (view.handles a).map (Handle.glimpse store) = (f.elements a).map Fragment.glimpse := by
  obtain ⟨s, hload, hshows⟩ := h.stored
  have helements := congrArg (List.map fun x => (x.1, some x.2))
    (Store.elements_of_shows hload hshows a)
  rw [List.map_map, List.map_map] at helements
  rw [h.made, handles_sequential, Assembly.handlesOf, List.map_map]
  exact helements

theorem properties (h : view.Pictures store f) :
    view.properties.map (fun e => (e.1, e.2.glimpse store)) =
      f.entries.map fun e => (e.1, e.2.glimpse) := by
  obtain ⟨s, hload, hshows⟩ := h.stored
  have hentries := congrArg (List.map fun x => (x.1, x.2.1, some x.2.2.2))
    (Store.entries_of_shows hload hshows)
  rw [List.map_map, List.map_map] at hentries
  rw [h.made]
  exact (List.map_map).trans hentries

/-- A step finds a handle in the view if and only if it leads to a nested schema of the fragment. -/
theorem handle?_eq (h : view.Pictures store f) (step : Step) :
    (view.handle? step).map (Handle.glimpse store) = (f.step? step).map Fragment.glimpse := by
  rw [View.handle?_eq, Fragment.step?, ← Step.lookup?_map, ← Step.lookup?_map]
  simp only [h.handles, h.properties]

theorem branches_eq (h : view.Pictures store f) :
    view.branches.map (fun b => (b.1, b.2.glimpse store)) =
      f.branches.map fun b => (b.1, b.2.glimpse) := by
  rw [View.branches_eq, Fragment.branches, ← Step.listing_map, ← Step.listing_map]
  simp only [h.handles, h.properties]

theorem nests (h : view.Pictures store f) (hhandle : view.handle? step = some handle) :
    ∃ g, f.Nests step g ∧ store.fragment? handle.child = some g ∧
      handle.valueAt = some g.origin := by
  have hsame := h.handle?_eq step
  rw [hhandle, Option.map_some] at hsame
  obtain ⟨g, hg, hglimpse⟩ := Option.map_eq_some_iff.mp hsame.symm
  obtain ⟨hfragment, hplace⟩ := Prod.mk.inj hglimpse
  exact ⟨g, Fragment.nests_of_step? hg, hfragment.symm, hplace.symm⟩

theorem missing (h : view.Pictures store f) (hhandle : view.handle? step = none) (g : Fragment) :
    ¬ f.Nests step g := by
  intro hnests
  have hsame := h.handle?_eq step
  rw [hhandle, hnests.step?] at hsame
  cases hsame

end Pictures

/-- A view that was assembled without a limit pictures the fragment of its schema. -/
theorem pictures_of_assembles {workers : Nat} {result : Except Failure View}
    (hf : f.value.InMemory) (hload : load f.origin f.value = .ok s) (hshows : store.Shows id s)
    (h : Assembly.Assembles workers none id (store.schema id) result) :
    ∃ view, result = .ok view ∧ view.source = id ∧ view.Pictures store f := by
  rcases Store.view_or_timeout_of_shows hf hload hshows h with hview | ⟨_, _, hlimit, _⟩
  · exact ⟨_, hview, rfl, ⟨s, hload, hshows⟩, rfl⟩
  · cases hlimit

/-- A view that pictures a fragment is what every assembly of its schema comes to. -/
theorem Pictures.assemble {workers : Nat} (h : view.Pictures store f) (hf : f.value.InMemory)
    (hworkers : 1 ≤ workers) :
    Assembly.assemble workers none view.source (store.schema view.source) = some (.ok view) := by
  obtain ⟨s, hload, hshows⟩ := h.stored
  have hmemory := Nat.lt_trans (Store.units_of_shows hload hshows) hf.addressable
  obtain ⟨result, hresult, hassembles⟩ :=
    Assembly.exists_assemble view.source hmemory hworkers (Latch.overflows_none 0)
  obtain ⟨view', rfl, hsource, hpictures⟩ := pictures_of_assembles hf hload hshows hassembles
  rw [hresult, hpictures.made, hsource, ← h.made]

/-- A stored document can be viewed. -/
theorem exists_view {workers : Nat} (hv : v.InMemory) (h : Store.Holds p v id store)
    (hworkers : 1 ≤ workers) :
    ∃ view, Assembly.Assembles workers none id (store.schema id) (.ok view) := by
  obtain ⟨s, hload, hshows⟩ := h.shows
  have hmemory := Nat.lt_trans (Store.units_of_shows (f := ⟨p, v⟩) hload hshows) hv.addressable
  obtain ⟨_, _, hassembles⟩ :=
    Assembly.exists_assemble id hmemory hworkers (Latch.overflows_none 0)
  obtain ⟨view, rfl, _⟩ := pictures_of_assembles (f := ⟨p, v⟩) hv hload hshows hassembles
  exact ⟨view, hassembles⟩

end View

/-- Opening a handle, with any number of workers and under any schedule, without a limit. The store
may be used elsewhere at the same time: before the child is asked for its schema, and before the
view is assembled. -/
inductive Handle.Opens (store : Store) (handle : Handle) : Store → Except Failure View → Prop
  | refused {before : Store} {e : LoadError} (meanwhile : store.Later before)
      (answer : (Store.schemaOf handle.child before).1 = .error e) :
      Opens store handle (Store.schemaOf handle.child before).2 (.error (.build e))
  | viewed {before after : Store} {id : SchemaId} {workers : Nat} {result : Except Failure View}
      (meanwhile : store.Later before) (answer : (Store.schemaOf handle.child before).1 = .ok id)
      (meanwhile' : (Store.schemaOf handle.child before).2.Later after)
      (assembled : Assembly.Assembles workers none id (after.schema id) result) :
      Opens store handle after result

theorem Handle.Opens.grows {result : Except Failure View} (h : handle.Opens store store' result) :
    store.Grows store' := by
  cases h with
  | @refused before e meanwhile answer =>
      exact meanwhile.grows.trans (Store.schemaOf_grows _ before)
  | @viewed before after id workers result meanwhile answer meanwhile' assembled =>
      exact meanwhile.grows.trans ((Store.schemaOf_grows _ before).trans meanwhile'.grows)

/-- Opening a handle fails for the reason why the fragment behind it has no schema, and gives a view
that pictures it if it has one. -/
theorem Handle.Opens.outcome {result : Except Failure View} (h : handle.Opens store store' result)
    (hsound : store.Sound) (hg : g.value.InMemory)
    (hfragment : store.fragment? handle.child = some g) :
    (∃ e, g.Refuses e ∧ result = .error (.build e)) ∨
      ∃ s view, g.Builds s ∧ result = .ok view ∧ view.Pictures store' g := by
  cases h with
  | @refused before e meanwhile answer =>
      have hgrows := meanwhile.grows
      have hsettles := Store.schemaOf_settles (hgrows.sound hsound) (hgrows.fragment? hfragment)
      rw [answer] at hsettles
      exact Or.inl ⟨e, Fragment.refuses_iff.mpr hsettles, rfl⟩
  | @viewed before after id workers result meanwhile answer meanwhile' assembled =>
      have hgrows := meanwhile.grows
      have hsettles := Store.schemaOf_settles (hgrows.sound hsound) (hgrows.fragment? hfragment)
      rw [answer] at hsettles
      obtain ⟨s, hbuild, hshows⟩ := hsettles
      obtain ⟨view, hresult, _, hpictures⟩ := View.pictures_of_assembles hg
        (Source.load_of_build hbuild) (meanwhile'.grows.shows hshows) assembled
      exact Or.inr ⟨s, view, Fragment.builds_iff.mpr hbuild, hresult, hpictures⟩

/-- Whenever a child has answered with a schema, the assembly of that schema comes to an end. -/
theorem Store.ends_of_answer {before after : Store} {child : ChildId} {workers : Nat}
    (hsound : store.Sound) (hg : g.value.InMemory) (hfragment : store.fragment? child = some g)
    (meanwhile : store.Later before) (answer : (Store.schemaOf child before).1 = .ok id)
    (meanwhile' : (Store.schemaOf child before).2.Later after) (hworkers : 1 ≤ workers)
    (hunits : (Assembly.Task.ofSource (after.schema id)).units ≠ 0) :
    ((Assembly.Task.ofSource (after.schema id)).plan workers none).Ends Pool.State.Returned
      (((Assembly.Task.ofSource (after.schema id)).plan workers none).initial
        (Assembly.Task.ofSource (after.schema id)).latch
        (Assembly.Board.empty (Assembly.Task.ofSource (after.schema id)))) := by
  have hgrows := meanwhile.grows
  have hsettles := Store.schemaOf_settles (hgrows.sound hsound) (hgrows.fragment? hfragment)
  rw [answer] at hsettles
  obtain ⟨s, hbuild, hshows⟩ := hsettles
  have hmemory := Nat.lt_trans (Store.units_of_shows (Source.load_of_build hbuild)
    (meanwhile'.grows.shows hshows)) hg.addressable
  have hends := Assembly.Task.ends (Assembly.Task.ofSource_proper _)
    (Assembly.Task.plan_fits hmemory workers none) hworkers hunits
  exact hends.returned rfl

/-- A machine that sets no limit of its own. -/
def Host.Unlimited (host : Host) : Prop :=
  (Settings.effective none host.fallback).limit = none

theorem WorkerCount.one_le_resolve (processors : Nat) (count : WorkerCount) :
    1 ≤ count.resolve processors := by
  cases count with
  | processors => exact Nat.le_max_left 1 processors
  | exactly count positive => exact positive

/-- A view that a machine makes is made by some number of workers. -/
theorem Host.view_assembles {host : Host} (hhost : host.Unlimited)
    (hmemory : (Assembly.Task.ofSource (store.schema id)).units < 2 ^ 63) :
    ∃ workers, Assembly.Assembles workers none id (store.schema id) (host.view none id store) := by
  obtain ⟨result, hresult, hassembles⟩ := Assembly.exists_assemble id hmemory
    (WorkerCount.one_le_resolve host.processors (Settings.effective none host.fallback).workers)
    (Latch.overflows_none 0)
  have hview : host.view none id store = result := by
    simp only [Host.view]
    rw [hhost, hresult, Option.getD_some]
  exact ⟨_, hview ▸ hassembles⟩

theorem Host.openHandle_eq (host : Host) (handle : Handle) (store : Store) :
    host.openHandle handle store =
      (match (Store.schemaOf handle.child store).1 with
        | .error e => .error (.build e)
        | .ok id => host.view none id (Store.schemaOf handle.child store).2,
       (Store.schemaOf handle.child store).2) := by
  simp only [openHandle, bind, StateT.bind]
  rcases Store.schemaOf handle.child store with ⟨answer, after⟩
  cases answer <;> rfl

/-- What a machine does to open a handle is one way to open it. -/
theorem Host.openHandle_opens {host : Host} (hhost : host.Unlimited) (hsound : store.Sound)
    (hg : g.value.InMemory) (hfragment : store.fragment? handle.child = some g) :
    handle.Opens store (host.openHandle handle store).2 (host.openHandle handle store).1 := by
  have hsettles := Store.schemaOf_settles hsound hfragment
  rw [Host.openHandle_eq]
  cases hanswer : (Store.schemaOf handle.child store).1 with
  | error e => exact .refused .now hanswer
  | ok id =>
      rw [hanswer] at hsettles
      obtain ⟨s, hbuild, hshows⟩ := hsettles
      have hmemory := Nat.lt_trans
        (Store.units_of_shows (Source.load_of_build hbuild) hshows) hg.addressable
      obtain ⟨workers, hview⟩ := Host.view_assembles hhost hmemory
      exact .viewed .now hanswer .now hview

end ApiSchema
