import ApiSchema.Proofs.View.Picture

/-!
Walking from view to view commutes with going down the document.

A walk opens one handle after the other, and each of them builds a schema, assembles a view and
leaves something in the store, while others use the store and the workers are scheduled at will.
None of that shows in where the walk comes to: the document alone says whether it arrives, at which
step it stops otherwise, and why.
-/

namespace ApiSchema

open Source (Schema Fragment load)

variable {store store' : Store} {v : Json} {f g : Fragment} {view : View} {handle : Handle}
  {step : Step} {path : List Step} {id : SchemaId} {count : Nat} {last : Option Handle}

namespace Source.Fragment

/-- Why a step leads no further from a fragment that has a schema. -/
inductive Blocks (f : Fragment) (step : Step) : WalkFailure → Prop
  /-- There is no such key or index. -/
  | missing (absent : ∀ g, ¬ f.Nests step g) : Blocks f step .missing
  /-- What is nested there is a reference, or it does not load. -/
  | refused {g : Fragment} {e : LoadError} (nests : f.Nests step g) (refuses : g.Refuses e) :
      Blocks f step (.failed (.build e))

/-- A path stops at the first of its steps that leads no further. -/
def Stops (f : Fragment) (path : List Step) (i : Nat) (failure : WalkFailure) : Prop :=
  ∃ front step rest g, path = front ++ step :: rest ∧ front.length = i ∧ f.Leads front g ∧
    g.Blocks step failure

/-- Goes down a path. A failure comes with the number of its step, counted from `count`. -/
def follow (count : Nat) (f : Fragment) : List Step → Except (Nat × WalkFailure) Fragment
  | [] => .ok f
  | step :: rest =>
    match f.step? step with
    | none => .error (count, .missing)
    | some g =>
      match g.build with
      | .error e => .error (count, .failed (.build e))
      | .ok _ => follow (count + 1) g rest

theorem follow_of_leads (h : f.Leads path g) (count : Nat) : follow count f path = .ok g := by
  induction h generalizing count with
  | here f => rfl
  | down nests builds _ ih =>
      simp only [follow, nests.step?, builds_iff.mp builds]
      exact ih (count + 1)

theorem follow_of_blocks {failure : WalkFailure} (h : f.Blocks step failure) (count : Nat)
    (rest : List Step) : follow count f (step :: rest) = .error (count, failure) := by
  cases h with
  | missing absent =>
      have hnone : f.step? step = none :=
        Option.eq_none_iff_forall_ne_some.mpr fun g hg => absent g (nests_of_step? hg)
      simp only [follow, hnone]
  | refused nests refuses => simp only [follow, nests.step?, refuses_iff.mp refuses]

theorem follow_of_stops {i : Nat} {failure : WalkFailure} (h : f.Stops path i failure)
    (count : Nat) : follow count f path = .error (count + i, failure) := by
  obtain ⟨front, step, rest, g, rfl, rfl, hleads, hblocks⟩ := h
  induction hleads generalizing count with
  | here f => exact follow_of_blocks hblocks count rest
  | @down f g _ _ front _ nests builds _ ih =>
      rw [List.cons_append, follow, nests.step?]
      simp only [builds_iff.mp builds]
      rw [ih (count + 1) hblocks, List.length_cons, Nat.add_right_comm, Nat.add_assoc]

/-- A stop further down the way. -/
theorem Stops.down {i : Nat} {failure : WalkFailure} {s : Schema Fragment} (nests : f.Nests step g)
    (builds : g.Builds s) (h : g.Stops path i failure) :
    f.Stops (step :: path) (i + 1) failure := by
  obtain ⟨front, step', rest, g', rfl, rfl, hleads, hblocks⟩ := h
  exact ⟨step :: front, step', rest, g', rfl, rfl, .down nests builds hleads, hblocks⟩

theorem Stops.here {failure : WalkFailure} (h : f.Blocks step failure) :
    f.Stops (step :: path) 0 failure :=
  ⟨[], step, path, f, rfl, rfl, .here f, h⟩

end Source.Fragment

namespace View

/-- The place that a walk has come to: that of the last handle opened, or the root before any. -/
def place? : Option Handle → Option Pointer
  | none => some .root
  | some handle => handle.valueAt

/-- The walks along a path, under every schedule and whatever else is done to the store on the way.
`last` is the last handle opened, and steps are counted from `count`. -/
inductive Walks : Nat → Option Handle → Store → View → List Step → Store →
    Except (Nat × WalkFailure) (Option Handle × View) → Prop
  | arrived {count : Nat} {last : Option Handle} {store : Store} {view : View} :
      Walks count last store view [] store (.ok (last, view))
  | missing {count : Nat} {last : Option Handle} {store : Store} {view : View} {step : Step}
      {rest : List Step} (absent : view.handle? step = none) :
      Walks count last store view (step :: rest) store (.error (count, .missing))
  | failed {count : Nat} {last : Option Handle} {store store' : Store} {view : View} {step : Step}
      {rest : List Step} {handle : Handle} {failure : Failure}
      (found : view.handle? step = some handle)
      (opens : handle.Opens store store' (.error failure)) :
      Walks count last store view (step :: rest) store' (.error (count, .failed failure))
  | opened {count : Nat} {last : Option Handle} {store store' store'' : Store} {view below : View}
      {step : Step} {rest : List Step} {handle : Handle}
      {outcome : Except (Nat × WalkFailure) (Option Handle × View)}
      (found : view.handle? step = some handle) (opens : handle.Opens store store' (.ok below))
      (further : Walks (count + 1) (some handle) store' below rest store'' outcome) :
      Walks count last store view (step :: rest) store'' outcome

variable {outcome : Except (Nat × WalkFailure) (Option Handle × View)}

/-- Where a walk comes to, by the document. -/
inductive Lands (count : Nat) (f : Fragment) (path : List Step) (store : Store) :
    Except (Nat × WalkFailure) (Option Handle × View) → Prop
  | arrived {g : Fragment} {last : Option Handle} {view : View} (leads : f.Leads path g)
      (placed : place? last = some g.origin) (pictures : view.Pictures store g) :
      Lands count f path store (.ok (last, view))
  | stopped {i : Nat} {failure : WalkFailure} (stops : f.Stops path i failure) :
      Lands count f path store (.error (count + i, failure))

theorem Walks.lands (h : Walks count last store view path store' outcome) (hsound : store.Sound)
    (hv : v.InMemory) (hf : f.Grounded v) (hplace : place? last = some f.origin)
    (hpictures : view.Pictures store f) : Lands count f path store' outcome := by
  induction h generalizing f with
  | arrived => exact .arrived (.here f) hplace hpictures
  | missing absent => exact .stopped (.here (.missing (hpictures.missing absent)))
  | failed found opens =>
      obtain ⟨g, hnests, hfragment, _⟩ := hpictures.nests found
      have hg := hv.part (hnests.grounded hf)
      rcases opens.outcome hsound hg hfragment with ⟨e, hrefuses, hresult⟩ | ⟨_, _, _, hresult, _⟩
      · cases hresult
        exact .stopped (.here (.refused hnests hrefuses))
      · cases hresult
  | opened found opens _ ih =>
      obtain ⟨g, hnests, hfragment, hvalueAt⟩ := hpictures.nests found
      have hg := hv.part (hnests.grounded hf)
      rcases opens.outcome hsound hg hfragment with
        ⟨_, _, hresult⟩ | ⟨s, _, hbuilds, hresult, hbelow⟩
      · cases hresult
      · cases hresult
        cases ih (opens.grows.sound hsound) (hnests.grounded hf) hvalueAt hbelow with
        | arrived leads placed pictures =>
            exact .arrived (.down hnests hbuilds leads) placed pictures
        | @stopped i failure stops =>
            rw [Nat.add_assoc, Nat.add_comm 1 i]
            exact .stopped (stops.down hnests hbuilds)

end View

namespace Host

theorem walkFrom_cons (host : Host) (count : Nat) (step : Step) (rest : List Step) (view : View)
    (store : Store) : host.walkFrom count (step :: rest) view store =
      match view.handle? step with
      | none => (.error (count, .missing), store)
      | some handle =>
        match (host.openHandle handle store).1 with
        | .error failure =>
          (.error (count, .failed failure), (host.openHandle handle store).2)
        | .ok below => host.walkFrom (count + 1) rest below (host.openHandle handle store).2 := by
  rw [walkFrom]
  cases view.handle? step with
  | none => rfl
  | some handle =>
      simp only [bind, StateT.bind]
      rcases host.openHandle handle store with ⟨answer, after⟩
      cases answer <;> rfl

/-- What a machine does to follow a path is one of the walks. -/
theorem walkFrom_walks {host : Host} (hhost : host.Unlimited) (path : List Step) (count : Nat)
    (last : Option Handle) (hsound : store.Sound) (hv : v.InMemory) (hf : f.Grounded v)
    (hpictures : view.Pictures store f) :
    ∃ outcome, view.Walks count last store path (host.walkFrom count path view store).2 outcome ∧
      (host.walkFrom count path view store).1 = outcome.map Prod.snd := by
  induction path generalizing count last store f view with
  | nil => exact ⟨_, .arrived, rfl⟩
  | cons step rest ih =>
      rw [walkFrom_cons]
      cases hfound : view.handle? step with
      | none => exact ⟨_, .missing hfound, rfl⟩
      | some handle =>
          obtain ⟨g, hnests, hfragment, _⟩ := hpictures.nests hfound
          have hg := hv.part (hnests.grounded hf)
          have hopens := openHandle_opens hhost hsound hg hfragment
          have houtcome := hopens.outcome hsound hg hfragment
          cases hanswer : (host.openHandle handle store).1 with
          | error failure =>
              rw [hanswer] at hopens
              simp only [hanswer]
              exact ⟨_, .failed hfound hopens, rfl⟩
          | ok below =>
              rw [hanswer] at hopens houtcome
              obtain ⟨_, _, hresult⟩ | ⟨_, _, _, hresult, hbelow⟩ := houtcome
              · cases hresult
              cases hresult
              obtain ⟨outcome, hwalks, heq⟩ := ih (count + 1) (some handle)
                (hopens.grows.sound hsound) (hnests.grounded hf) hbelow
              simp only [hanswer]
              exact ⟨outcome, .opened hfound hopens hwalks, heq⟩

end Host

namespace View

/-- A walk has arrived at the part `u` of the document, which stands at `q`. -/
structure ArrivedAt (v : Json) (path : List Step) (store : Store) (last : Option Handle)
    (view : View) (q : Pointer) (u : Json) : Prop where
  placed : place? last = some q
  found : q.resolve? v = some u
  object : ∃ members, u = .obj members
  /-- The schema that the view was made from is the one that `u` loads as. -/
  loaded : ∃ s, load q u = .ok s ∧ store.Shows view.source s
  /-- The view is what every assembly of that schema comes to. -/
  assembled : ∀ workers, 1 ≤ workers →
    Assembly.assemble workers none view.source (store.schema view.source) = some (.ok view)
  /-- Everything on the way can be built. -/
  leads : Fragment.Leads ⟨.root, v⟩ path ⟨q, u⟩

/-- The walks along a path from a view of a document keep to the document. -/
structure WalksKeep (v : Json) (store : Store) (view : View) (path : List Step) : Prop where
  /-- What a machine does to follow the path is one of the walks. -/
  possible : ∀ host : Host, host.Unlimited → ∃ outcome,
    view.Walks 0 none store path (host.walk path view store).2 outcome ∧
      (host.walk path view store).1 = outcome.map Prod.snd
  /-- A walk that succeeds arrives where its last handle says. -/
  arrived : ∀ {store' last view'}, view.Walks 0 none store path store' (.ok (last, view')) →
    ∃ q u, ArrivedAt v path store' last view' q u
  /-- A walk fails where the path stops in the document, and for the same reason. -/
  stopped : ∀ {store' outcome}, view.Walks 0 none store path store' outcome →
    ∀ i failure, outcome = .error (i, failure) ↔ Fragment.Stops ⟨.root, v⟩ path i failure

/-- Walking from view to view commutes with going down the document. -/
theorem walk_commutes {workers : Nat} (hv : v.InMemory) (hholds : Store.Holds .root v id store)
    (hview : Assembly.Assembles workers none id (store.schema id) (.ok view)) (path : List Step) :
    WalksKeep v store view path := by
  obtain ⟨s, hload, hshows⟩ := hholds.shows
  have hsound := hholds.sound
  have hroot : Fragment.Grounded v ⟨.root, v⟩ := Pointer.resolve?_root v
  obtain ⟨_, hresult, rfl, hpictures⟩ :=
    pictures_of_assembles (f := ⟨.root, v⟩) hv hload hshows hview
  cases hresult
  have hlands : ∀ {store' outcome}, view.Walks 0 none store path store' outcome →
      Lands 0 ⟨.root, v⟩ path store' outcome :=
    fun hwalks => hwalks.lands hsound hv hroot rfl hpictures
  refine ⟨fun host hhost => Host.walkFrom_walks hhost path 0 none hsound hv hroot hpictures,
    fun hwalks => ?_, fun hwalks i failure => ?_⟩
  · cases hlands hwalks with
    | @arrived g _ _ leads placed pictures =>
        have hg := leads.chain.grounded hroot
        obtain ⟨s, hload, hshows⟩ := pictures.stored
        obtain ⟨members, hobject, _⟩ := Source.load_reads hload
        exact ⟨g.origin, g.value, placed, hg, ⟨members, hobject⟩, ⟨s, hload, hshows⟩,
          fun workers => pictures.assemble (hv.part hg), leads⟩
  · cases hlands hwalks with
    | arrived leads =>
        refine ⟨nofun, fun hstops => ?_⟩
        have hfollow := Fragment.follow_of_stops hstops 0
        rw [Fragment.follow_of_leads leads 0] at hfollow
        cases hfollow
    | @stopped i' failure' stops =>
        have hfollow := Fragment.follow_of_stops stops 0
        constructor
        · intro heq
          cases heq
          rwa [Nat.zero_add]
        · intro hstops
          rw [Fragment.follow_of_stops hstops 0, Nat.zero_add] at hfollow
          cases hfollow
          rfl

def escapedDocument : Json :=
  .obj [("items", .obj [("properties", .obj [("a/b", .obj []),
    ("c", .obj [("$ref", .str "#"), ("maximum", .null)])])])]

def escapedPath : List Step :=
  [.element .items 0, .property "a/b"]

/-- A walk arrives behind the escaped key, at the place that escapes it. -/
theorem walk_commutes_escaped : ∃ id store view, Store.Holds .root escapedDocument id store ∧
    WalksKeep escapedDocument store view escapedPath ∧ ∃ store' last view',
      view.Walks 0 none store escapedPath store' (.ok (last, view')) ∧
        place? last = some ⟨"/items/properties/a~1b"⟩ := by
  have hv : escapedDocument.InMemory := ⟨by decide, by decide⟩
  have hholds : Store.Holds .root escapedDocument _ _ := .intro .now rfl .now
  obtain ⟨view, hview⟩ := exists_view hv hholds (Nat.le_refl 1)
  have hkeep := walk_commutes hv hholds hview escapedPath
  refine ⟨_, _, view, hholds, hkeep, ?_⟩
  obtain ⟨outcome, hwalks, _⟩ := hkeep.possible ⟨1, none⟩ rfl
  have hfollow : Fragment.follow 0 ⟨.root, escapedDocument⟩ escapedPath =
      .ok ⟨⟨"/items/properties/a~1b"⟩, .obj []⟩ := rfl
  cases outcome with
  | error stop =>
      have hstops := (hkeep.stopped hwalks stop.1 stop.2).mp rfl
      rw [Fragment.follow_of_stops hstops 0] at hfollow
      cases hfollow
  | ok arrival =>
      obtain ⟨q, u, harrived⟩ := hkeep.arrived hwalks
      rw [Fragment.follow_of_leads harrived.leads 0] at hfollow
      cases hfollow
      exact ⟨_, _, _, hwalks, harrived.placed⟩

end View
end ApiSchema
