import ApiSchema.Proofs.Source.Unheeded
import ApiSchema.Proofs.Store.Descent

/-!
Members that nothing is made of show nowhere.

Two documents that differ in such members load alike or are refused with the same error. Every path
stops in both at the same step and for the same reason, or comes to schemas with the same fields and
places, and to views with the same values. Only addresses tell the two apart.
-/

namespace ApiSchema

open Source (Schema Fragment Entry load DifferUnheeded)

/-- The handle without the address of its child. -/
def Handle.unaddressed (handle : Handle) : Handle :=
  ⟨⟨0⟩, handle.keyAt, handle.valueAt⟩

namespace View

/-- The view without addresses: that of its source, and those of the children behind its handles. -/
def unaddressed (view : View) : View :=
  { view with
    source := ⟨0⟩
    allOf := view.allOf.map Handle.unaddressed
    oneOf := view.oneOf.map Handle.unaddressed
    anyOf := view.anyOf.map Handle.unaddressed
    not := view.not.map Handle.unaddressed
    items := view.items.map Handle.unaddressed
    properties := view.properties.map fun e => (e.1, e.2.unaddressed) }

/-- What a view has but for addresses, it has from the fields and places of the schema. -/
theorem unaddressed_sequential (id : SchemaId) (s : Schema ChildId) :
    (Assembly.sequential id s).unaddressed =
      Assembly.sequential ⟨0⟩ (s.map fun _ => ⟨0⟩) := by
  have hhandles : ∀ a : Applicator, (Assembly.handlesOf s a).map Handle.unaddressed =
      Assembly.handlesOf (s.map fun _ => ⟨0⟩) a := by
    intro a
    rw [Assembly.handlesOf, Assembly.handlesOf, Schema.elements_map, List.map_map, List.map_map]
    rfl
  have hproperties : (s.entries.map fun e => (e.key, Handle.ofEntry e)).map
      (fun e => (e.1, e.2.unaddressed)) =
        (s.map fun _ => ChildId.mk 0).entries.map fun e => (e.key, Handle.ofEntry e) := by
    rw [Schema.entries_map, List.map_map, List.map_map]
    rfl
  refine View.ext_get rfl (fun k => ?_) rfl
  cases k with
  | allOf => exact hhandles .allOf
  | oneOf => exact hhandles .oneOf
  | anyOf => exact hhandles .anyOf
  | not => exact hhandles .not
  | items => exact hhandles .items
  | properties => exact hproperties
  | _ => rfl

end View

def Store.place? (store : Store) (c : ChildId) : Option Pointer :=
  (store.fragment? c).map Fragment.origin

variable {store store' after after' : Store} {id id' : SchemaId} {path : List Step} {count : Nat}
  {f g : Fragment} {v w : Json}

/-- Two stored schemas have the same fields, and their children stand at the same places, if they
were loaded from fragments that differ in members that nothing is made of. -/
theorem Source.Fragment.StoredAt.map_place (hprune : f.prune = g.prune) (h : f.StoredAt store id)
    (h' : g.StoredAt store' id') :
    (store.schema id).map store.place? = (store'.schema id').map store'.place? := by
  have hplaces : ∀ {store : Store} {id s}, store.Shows id s →
      (store.schema id).map store.place? = (s.map Fragment.origin).map some := by
    rintro store id s ⟨t, ht, hmap⟩
    have hsame := congrArg (Schema.map (Option.map Fragment.origin)) hmap
    rw [Schema.map_map, Schema.map_map] at hsame
    rw [Store.schema_of_schema? ht, Schema.map_map]
    exact hsame
  obtain ⟨s, hload, hshows⟩ := h
  obtain ⟨t, hload', hshows'⟩ := h'
  have hloads := Fragment.load_of_prune_eq hprune
  rw [hload, hload'] at hloads
  rw [hplaces hshows, hplaces hshows', Except.ok.inj hloads]

namespace Store

variable {outcome outcome' : Except (Nat × WalkFailure) SchemaId}

/-- Two ways down stop at the same step and for the same reason, or come to schemas with the same
fields and places. -/
inductive Likewise (after after' : Store) :
    Except (Nat × WalkFailure) SchemaId → Except (Nat × WalkFailure) SchemaId → Prop
  | stopped (stop : Nat × WalkFailure) : Likewise after after' (.error stop) (.error stop)
  | arrived {i j : SchemaId}
      (same : (after.schema i).map after.place? = (after'.schema j).map after'.place?) :
      Likewise after after' (.ok i) (.ok j)

theorem Reaches.likewise (hprune : f.prune = g.prune) (h : Reaches count f path after outcome)
    (h' : Reaches count g path after' outcome') : Likewise after after' outcome outcome' := by
  rcases Fragment.follow_of_prune_eq hprune count path with
    ⟨stop, hf, hg⟩ | ⟨f', g', hf, hg, hprune'⟩
  · cases h with
    | arrived follows _ => cases hf.symm.trans follows
    | stopped follows =>
        cases h' with
        | arrived follows' _ => cases hg.symm.trans follows'
        | stopped follows' =>
            cases hf.symm.trans follows
            cases hg.symm.trans follows'
            exact .stopped stop
  · cases h with
    | stopped follows => cases hf.symm.trans follows
    | arrived follows stored =>
        cases h' with
        | stopped follows' => cases hg.symm.trans follows'
        | arrived follows' stored' =>
            cases hf.symm.trans follows
            cases hg.symm.trans follows'
            exact .arrived (stored.map_place hprune' stored')

end Store

namespace View

variable {outcome outcome' : Except (Nat × WalkFailure) (Option Handle × View)} {view view' : View}

/-- Two walks stop at the same step and for the same reason, or come to the same place and to views
that only addresses tell apart. -/
inductive Likewise : Except (Nat × WalkFailure) (Option Handle × View) →
    Except (Nat × WalkFailure) (Option Handle × View) → Prop
  | stopped (stop : Nat × WalkFailure) : Likewise (.error stop) (.error stop)
  | arrived {last last' : Option Handle} {view view' : View} (placed : place? last = place? last')
      (same : view.unaddressed = view'.unaddressed) :
      Likewise (.ok (last, view)) (.ok (last', view'))

/-- Views of fragments that differ in members that nothing is made of. -/
theorem Pictures.unaddressed_eq (hprune : f.prune = g.prune) (h : view.Pictures store f)
    (h' : view'.Pictures store' g) : view.unaddressed = view'.unaddressed := by
  have hplaces := Fragment.StoredAt.map_place hprune h.stored h'.stored
  have hsame := congrArg (Schema.map fun _ => ChildId.mk 0) hplaces
  rw [Schema.map_map, Schema.map_map] at hsame
  rw [h.made, h'.made, unaddressed_sequential, unaddressed_sequential]
  exact congrArg (Assembly.sequential ⟨0⟩) hsame

theorem Lands.follow (h : Lands count f path store outcome) :
    (∃ g last view, outcome = .ok (last, view) ∧ f.follow count path = .ok g ∧
      place? last = some g.origin ∧ view.Pictures store g) ∨
    ∃ stop, outcome = .error stop ∧ f.follow count path = .error stop := by
  cases h with
  | @arrived g last view leads placed pictures =>
      exact Or.inl ⟨g, last, view, rfl, Fragment.follow_of_leads leads count, placed, pictures⟩
  | stopped stops => exact Or.inr ⟨_, rfl, Fragment.follow_of_stops stops count⟩

theorem Lands.likewise (hprune : f.prune = g.prune) (h : Lands count f path store outcome)
    (h' : Lands count g path store' outcome') : Likewise outcome outcome' := by
  rcases Fragment.follow_of_prune_eq hprune count path with
    ⟨stop, hf, hg⟩ | ⟨f', g', hf, hg, hprune'⟩
  · rcases h.follow with ⟨_, _, _, _, hfollow, _⟩ | ⟨_, rfl, hfollow⟩
    · cases hf.symm.trans hfollow
    · rcases h'.follow with ⟨_, _, _, _, hfollow', _⟩ | ⟨_, rfl, hfollow'⟩
      · cases hg.symm.trans hfollow'
      · cases hf.symm.trans hfollow
        cases hg.symm.trans hfollow'
        exact .stopped stop
  · rcases h.follow with ⟨_, last, view, rfl, hfollow, hplaced, hpictures⟩ | ⟨_, _, hfollow⟩
    · rcases h'.follow with ⟨_, last', view', rfl, hfollow', hplaced', hpictures'⟩ |
        ⟨_, _, hfollow'⟩
      · cases hf.symm.trans hfollow
        cases hg.symm.trans hfollow'
        have horigin : f'.prune.origin = g'.prune.origin := congrArg Fragment.origin hprune'
        exact .arrived (hplaced.trans ((congrArg some horigin).trans hplaced'.symm))
          (hpictures.unaddressed_eq hprune' hpictures')
      · cases hg.symm.trans hfollow'
    · cases hf.symm.trans hfollow

end View

/-- Two documents that nobody can tell apart but by addresses. -/
structure Indistinguishable (v w : Json) : Prop where
  /-- They load to the same fields, with nested schemas at the same places, or are refused with the
  same error. -/
  loaded : ∀ p, (load p v).map (Schema.map Fragment.origin) =
    (load p w).map (Schema.map Fragment.origin)
  /-- Every way down from the one and from the other stop or arrive alike, whatever else is done to
  the stores. -/
  descended : ∀ {p id id' store store' after after' path outcome outcome'},
    Store.Holds p v id store → Store.Holds p w id' store' →
      Store.Descends 0 store id path after outcome →
        Store.Descends 0 store' id' path after' outcome' →
          Store.Likewise after after' outcome outcome'
  /-- Every path can be gone down. -/
  possible : ∀ store id path, ∃ after outcome, Store.Descends 0 store id path after outcome
  /-- The walks from view to view stop or arrive alike, too. -/
  walked : ∀ {id id' store store' workers workers' view view' path after after' outcome outcome'},
    v.InMemory → w.InMemory → Store.Holds .root v id store → Store.Holds .root w id' store' →
      Assembly.Assembles workers none id (store.schema id) (.ok view) →
        Assembly.Assembles workers' none id' (store'.schema id') (.ok view') →
          view.Walks 0 none store path after outcome →
            view'.Walks 0 none store' path after' outcome' → View.Likewise outcome outcome'
  /-- Two machines that follow a path find the same. -/
  followed : ∀ {id id' store store' workers workers' view view'} {host host' : Host} (path),
    v.InMemory → w.InMemory → Store.Holds .root v id store → Store.Holds .root w id' store' →
      Assembly.Assembles workers none id (store.schema id) (.ok view) →
        Assembly.Assembles workers' none id' (store'.schema id') (.ok view') →
          host.Unlimited → host'.Unlimited →
            (host.walk path view store).1.map View.unaddressed =
              (host'.walk path view' store').1.map View.unaddressed

/-- The view of a stored document pictures it. -/
theorem Store.Holds.pictures {view : View} {workers : Nat} (hv : v.InMemory)
    (hholds : Store.Holds .root v id store)
    (hview : Assembly.Assembles workers none id (store.schema id) (.ok view)) :
    view.Pictures store ⟨.root, v⟩ := by
  obtain ⟨s, hload, hshows⟩ := hholds.shows
  obtain ⟨_, hresult, _, hpictures⟩ :=
    View.pictures_of_assembles (f := ⟨.root, v⟩) hv hload hshows hview
  cases hresult
  exact hpictures

/-- Members that nothing is made of, put in or taken out wherever there are schemas, discriminators,
XML metadata or documentation, cannot be told from outside. -/
theorem unheeded_members_invisible (h : DifferUnheeded v w) : Indistinguishable v w := by
  have hprune : ∀ p, Fragment.prune ⟨p, v⟩ = Fragment.prune ⟨p, w⟩ :=
    fun p => congrArg (Fragment.mk p) h.prune_eq
  have hlands : ∀ {u id store workers view path after outcome}, u.InMemory →
      Store.Holds .root u id store →
        Assembly.Assembles workers none id (store.schema id) (.ok view) →
          View.Walks 0 none store view path after outcome →
            View.Lands 0 ⟨.root, u⟩ path after outcome :=
    fun hu hholds hview hwalks => hwalks.lands hholds.sound hu (Pointer.resolve?_root _) rfl
      (hholds.pictures hu hview)
  have hwalked : ∀ {id id' store store' workers workers' view view' path after after' outcome
      outcome'}, v.InMemory → w.InMemory → Store.Holds .root v id store →
      Store.Holds .root w id' store' →
        Assembly.Assembles workers none id (store.schema id) (.ok view) →
          Assembly.Assembles workers' none id' (store'.schema id') (.ok view') →
            View.Walks 0 none store view path after outcome →
              View.Walks 0 none store' view' path after' outcome' →
                View.Likewise outcome outcome' :=
    fun hv hw hholds hholds' hview hview' hwalks hwalks' =>
      (hlands hv hholds hview hwalks).likewise (hprune _) (hlands hw hholds' hview' hwalks')
  refine ⟨fun p => Fragment.load_of_prune_eq (hprune p),
    fun hholds hholds' hdescends hdescends' => ?_, Store.exists_descends 0, hwalked,
    fun path hv hw hholds hholds' hview hview' hhost hhost' => ?_⟩
  · have hreaches := hdescends.reaches hholds.sound hholds.storedAt
    have hreaches' := hdescends'.reaches hholds'.sound hholds'.storedAt
    exact hreaches.likewise (hprune _) hreaches'
  · obtain ⟨outcome, hwalks, heq⟩ := Host.walkFrom_walks (f := ⟨.root, v⟩) hhost path 0 none
      hholds.sound hv (Pointer.resolve?_root v) (hholds.pictures hv hview)
    obtain ⟨outcome', hwalks', heq'⟩ := Host.walkFrom_walks (f := ⟨.root, w⟩) hhost' path 0 none
      hholds'.sound hw (Pointer.resolve?_root w) (hholds'.pictures hw hview')
    rw [Host.walk, Host.walk, heq, heq']
    cases hwalked hv hw hholds hholds' hview hview' hwalks hwalks' with
    | stopped stop => rfl
    | arrived _ same => exact congrArg Except.ok same

def plainDocument : Json :=
  .obj [("items", .obj [("xml", .obj [("name", .str "n")]), ("title", .str "t")])]

/-- The same with members that nothing is made of, on three levels. -/
def annotatedDocument : Json :=
  .obj [("items", .obj [("xml", .obj [("name", .str "n"), ("note", .arr [])]),
    ("owner", .obj [("$ref", .str "#")]), ("title", .str "t")]), ("$comment", .null)]

theorem unheeded_members_invisible_annotated : DifferUnheeded plainDocument annotatedDocument ∧
    Indistinguishable plainDocument annotatedDocument ∧
      ∃ s t, load .root plainDocument = .ok s ∧ load .root annotatedDocument = .ok t ∧
        s.map Fragment.origin = t.map Fragment.origin := by
  have hxml : Source.Inserts (.value .xml) _ _ := @Source.Inserts.here _ [("name", .str "n")] []
    "note" (.arr []) (by decide)
  have howner : Source.Inserts .schema _ _ := @Source.Inserts.here _
    [("xml", .obj [("name", .str "n"), ("note", .arr [])])] [("title", .str "t")] "owner"
    (.obj [("$ref", .str "#")]) (by decide)
  have hdiffer : DifferUnheeded plainDocument annotatedDocument := by
    refine .trans _ _ _ (.rel _ _ (@Source.Inserts.keyword .items [] [] _ _ (.lone
      (@Source.Inserts.keyword .xml [] [("title", .str "t")] _ _ hxml)))) ?_
    refine .trans _ _ _ (.rel _ _ (@Source.Inserts.keyword .items [] [] _ _ (.lone howner))) ?_
    exact .rel _ _ (@Source.Inserts.here _ [_] [] "$comment" .null (by decide))
  have hsame := unheeded_members_invisible hdiffer
  exact ⟨hdiffer, hsame, _, _, rfl, rfl, Except.ok.inj (hsame.loaded .root)⟩

end ApiSchema
