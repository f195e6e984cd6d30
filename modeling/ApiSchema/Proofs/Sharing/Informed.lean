import ApiSchema.Proofs.Sharing.Moves
import ApiSchema.Proofs.View.Picture

/-!
What threads know is true of the document.

Whatever the interleaving, the threads and the log say nothing but what the document bears out
(`Informed`): children stand for parts of it, answers are the results of building those, and views
picture them. And no two schemas have been stored at the same address (`Born`).
-/

namespace ApiSchema

open Source (Schema Fragment load)

variable {store store' : Store} {v : Json} {id : SchemaId} {c : ChildId} {f g : Fragment}
  {step : Step} {t : Schema ChildId}

/-- The schema of a fragment is stored at an address. -/
def Source.Fragment.StoredAt (f : Fragment) (store : Store) (id : SchemaId) : Prop :=
  ∃ s, load f.origin f.value = .ok s ∧ store.Shows id s

theorem Store.Grows.storedAt (hgrows : store.Grows store') (h : f.StoredAt store id) :
    f.StoredAt store' id := by
  obtain ⟨s, hload, hshows⟩ := h
  exact ⟨s, hload, hgrows.shows hshows⟩

/-- A step finds the same in a stored schema and in its fragment. -/
theorem Source.Fragment.StoredAt.step?_eq (h : f.StoredAt store id) (step : Step) :
    ((store.schema id).step? step).map store.fragment? = (f.step? step).map some := by
  obtain ⟨s, hload, hshows⟩ := h
  have helements : ∀ a, (((store.schema id).elements a).map (·.value)).map store.fragment? =
      (f.elements a).map some := by
    intro a
    have hlist := congrArg (List.map Prod.fst) (Store.elements_of_shows hload hshows a)
    rw [List.map_map, List.map_map] at hlist
    rw [List.map_map]
    exact hlist
  have hentries : ((store.schema id).entries.map fun e => (e.key, e.value)).map
      (fun e => (e.1, store.fragment? e.2)) = f.entries.map fun e => (e.1, some e.2) := by
    have hmap := congrArg (List.map fun x => (x.1, x.2.1)) (Store.entries_of_shows hload hshows)
    rw [List.map_map, List.map_map] at hmap
    rw [List.map_map]
    exact hmap
  rw [Schema.step?, Fragment.step?, ← Step.lookup?_map, ← Step.lookup?_map]
  simp only [helements, hentries]

/-- What a step finds in a stored schema stands for what is nested in the fragment. -/
theorem Source.Fragment.StoredAt.nests (h : f.StoredAt store id)
    (hc : (store.schema id).step? step = some c) :
    ∃ g, f.Nests step g ∧ store.fragment? c = some g := by
  have hsame := h.step?_eq step
  rw [hc, Option.map_some] at hsame
  obtain ⟨g, hg, hfragment⟩ := Option.map_eq_some_iff.mp hsame.symm
  exact ⟨g, Fragment.nests_of_step? hg, hfragment.symm⟩

/-- A view leads on to the children that its schema leads on to. -/
theorem View.handle?_sequential (id : SchemaId) (t : Schema ChildId) (step : Step) :
    ((Assembly.sequential id t).handle? step).map Handle.child = t.step? step := by
  have hhandles : ∀ a, ((Assembly.sequential id t).handles a).map Handle.child =
      (t.elements a).map (·.value) := by
    intro a
    rw [View.handles_sequential, Assembly.handlesOf, List.map_map]
    rfl
  have hproperties : (Assembly.sequential id t).properties.map (fun e => (e.1, e.2.child)) =
      t.entries.map fun e => (e.key, e.value) := List.map_map
  rw [View.handle?_eq, Schema.step?, ← Step.lookup?_map]
  simp only [hhandles, hproperties]

/-- What comes of viewing a schema: a view that pictures a part of the document, or a failure for
want of time. -/
inductive Outcome (v : Json) (store : Store) (limit : Option Duration) (id : SchemaId) :
    Except Failure View → Prop
  | view {view : View} {f : Fragment} (grounded : f.Grounded v) (source : view.source = id)
      (pictures : view.Pictures store f) : Outcome v store limit id (.ok view)
  | timeout {elapsed bound : Duration} (limited : limit = some bound) :
      Outcome v store limit id (.error (.timeout elapsed bound))

theorem Outcome.grows {limit : Option Duration} {result : Except Failure View}
    (h : Outcome v store limit id result) (hgrows : store.Grows store') :
    Outcome v store' limit id result := by
  cases h with
  | view grounded source pictures => exact .view grounded source (pictures.grows hgrows)
  | timeout limited => exact .timeout limited

theorem Source.Fragment.StoredAt.outcome {workers : Nat} {limit : Option Duration}
    {result : Except Failure View} (h : f.StoredAt store id) (hv : v.InMemory) (hf : f.Grounded v)
    (hresult : Assembly.Assembles workers limit id (store.schema id) result) :
    Outcome v store limit id result := by
  obtain ⟨s, hload, hshows⟩ := h
  rcases Store.view_or_timeout_of_shows (hv.part hf) hload hshows hresult with
    rfl | ⟨elapsed, bound, hlimit, rfl⟩
  · exact .view hf rfl ⟨⟨s, hload, hshows⟩, rfl⟩
  · exact .timeout hlimit

namespace Sharing

/-- A child stands for a part of the document. -/
def Stands (v : Json) (store : Store) (c : ChildId) (g : Fragment) : Prop :=
  store.fragment? c = some g ∧ g.Grounded v

/-- What is known of a thread. -/
def Thread.Fits (v : Json) (store : Store) (log : List Event) (i : Nat) : Thread → Prop
  | .idle => True
  | .asking c _ | .building c _ => ∃ g, Stands v store c g
  | .keeping c _ result => ∃ g, Stands v store c g ∧ store.Settles g result
  | .viewing child? id _ => (∃ f : Fragment, f.Grounded v ∧ f.StoredAt store id) ∧
    ∀ c, child? = some c → .answered i c (.ok id) ∈ log

/-- What is known of an event. -/
def Event.Fits (v : Json) (store : Store) (log : List Event) : Event → Prop
  | .loaded id => Fragment.StoredAt ⟨.root, v⟩ store id
  | .built c result | .answered _ c result => ∃ g, Stands v store c g ∧ store.Settles g result
  | .opened i c limit result =>
    (∃ e, .answered i c (.error e) ∈ log ∧ result = .error (.build e)) ∨
      ∃ id, .answered i c (.ok id) ∈ log ∧ Outcome v store limit id result
  | .viewed _ id limit result => Outcome v store limit id result

variable {log log' : List Event} {i j : Nat} {thread : Thread} {event : Event} {wish : Wish}
  {result : Except LoadError SchemaId}

theorem Stands.grows (h : Stands v store c g) (hgrows : store.Grows store') :
    Stands v store' c g :=
  ⟨hgrows.fragment? h.1, h.2⟩

theorem Thread.Fits.later (h : thread.Fits v store log i) (hgrows : store.Grows store')
    (hlog : log ⊆ log') : thread.Fits v store' log' i := by
  cases thread with
  | idle => trivial
  | asking c wish =>
      obtain ⟨g, hstands⟩ := h
      exact ⟨g, hstands.grows hgrows⟩
  | building c wish =>
      obtain ⟨g, hstands⟩ := h
      exact ⟨g, hstands.grows hgrows⟩
  | keeping c wish result =>
      obtain ⟨g, hstands, hsettles⟩ := h
      exact ⟨g, hstands.grows hgrows, hgrows.settles hsettles⟩
  | viewing child? id limit =>
      obtain ⟨⟨f, hf, hstored⟩, hanswered⟩ := h
      exact ⟨⟨f, hf, hgrows.storedAt hstored⟩, fun c hc => hlog (hanswered c hc)⟩

theorem Event.Fits.later (h : event.Fits v store log) (hgrows : store.Grows store')
    (hlog : log ⊆ log') : event.Fits v store' log' := by
  cases event with
  | loaded id => exact hgrows.storedAt h
  | built c result =>
      obtain ⟨g, hstands, hsettles⟩ := h
      exact ⟨g, hstands.grows hgrows, hgrows.settles hsettles⟩
  | answered i c result =>
      obtain ⟨g, hstands, hsettles⟩ := h
      exact ⟨g, hstands.grows hgrows, hgrows.settles hsettles⟩
  | opened i c limit result =>
      rcases h with ⟨e, hanswered, hresult⟩ | ⟨id, hanswered, houtcome⟩
      · exact Or.inl ⟨e, hlog hanswered, hresult⟩
      · exact Or.inr ⟨id, hlog hanswered, houtcome.grows hgrows⟩
  | viewed i id limit result => exact Outcome.grows h hgrows

theorem storedAt_of_settles (h : store.Settles g (.ok id)) : g.StoredAt store id := by
  obtain ⟨s, hbuild, hshows⟩ := h
  exact ⟨s, Source.load_of_build hbuild, hshows⟩

/-- A thread that has been answered goes on with what it knows. -/
theorem Wish.next_fits (wish : Wish) (hstands : Stands v store c g)
    (hsettles : store.Settles g result) (hmem : .answered i c result ∈ log) :
    (wish.next c result).Fits v store log i := by
  cases result with
  | error e => trivial
  | ok id =>
      cases wish with
      | schema => trivial
      | view limit =>
          refine ⟨⟨g, hstands.2, storedAt_of_settles hsettles⟩, fun c' hc' => ?_⟩
          cases hc'
          exact hmem

theorem Wish.events_fit (wish : Wish) (hstands : Stands v store c g)
    (hsettles : store.Settles g result) :
    ∀ event ∈ wish.events i c result, event.Fits v store (wish.events i c result ++ log) := by
  intro event hevent
  rcases State.mem_events hevent with rfl | ⟨limit, e, rfl, rfl⟩
  · exact ⟨g, hstands, hsettles⟩
  · exact Or.inl ⟨e, List.mem_append_left _ (State.answered_mem_events wish i c _), rfl⟩

namespace State

variable {s s' : State}

/-- What is known of the store, the threads and the log. -/
structure Informed (v : Json) (s : State) : Prop where
  sound : s.store.Sound
  threads : ∀ i, (s.threads i).Fits v s.store s.log i
  log : ∀ event ∈ s.log, event.Fits v s.store s.log

namespace Informed

theorem start : Informed v {} :=
  ⟨Store.sound_empty, fun _ => trivial, List.forall_mem_nil _⟩

/-- Everything known is known ever after. -/
theorem later (h : s.Informed v) (events : List Event) (hgrows : s.store.Grows store')
    (hevents : ∀ event ∈ events, event.Fits v store' (events ++ s.log)) :
    State.Informed v ⟨store', s.threads, events ++ s.log⟩ := by
  have hold : s.log ⊆ events ++ s.log := List.subset_append_right _ _
  refine ⟨hgrows.sound h.sound, fun j => (h.threads j).later hgrows hold, fun event hevent => ?_⟩
  rcases List.mem_append.mp hevent with hevent | hevent
  · exact hevents event hevent
  · exact (h.log event hevent).later hgrows hold

/-- A thread goes on to what is known of it. -/
theorem put (h : s.Informed v) (hfits : thread.Fits v s.store s.log i) :
    (s.put i thread).Informed v := by
  refine ⟨h.sound, fun j => ?_, h.log⟩
  show Thread.Fits v s.store s.log j ((s.put i thread).threads j)
  by_cases hj : j = i
  · rw [hj, threads_put_self]
    exact hfits
  · rw [threads_put_of_ne s thread hj]
    exact h.threads j

theorem given (h : s.Informed v) (hgives : s.Gives id) :
    ∃ f : Fragment, f.Grounded v ∧ f.StoredAt s.store id := by
  cases hgives with
  | loaded mem => exact ⟨⟨.root, v⟩, Pointer.resolve?_root v, h.log _ mem⟩
  | answered mem =>
      obtain ⟨g, hstands, hsettles⟩ := h.log _ mem
      exact ⟨g, hstands.2, storedAt_of_settles hsettles⟩

theorem opened {limit : Option Duration} {view : View} (h : s.Informed v)
    (hmem : .opened i c limit (.ok view) ∈ s.log) : .answered i c (.ok view.source) ∈ s.log ∧
      ∃ f : Fragment, f.Grounded v ∧ view.Pictures s.store f := by
  rcases h.log _ hmem with ⟨e, _, hresult⟩ | ⟨id, hanswered, houtcome⟩
  · cases hresult
  · cases houtcome with
    | view grounded source pictures =>
        rw [source]
        exact ⟨hanswered, _, grounded, pictures⟩

theorem pictures {view : View} (h : s.Informed v) (hviews : s.Views view) :
    ∃ f : Fragment, f.Grounded v ∧ view.Pictures s.store f := by
  cases hviews with
  | opened mem => exact (h.opened mem).2
  | viewed mem =>
      cases h.log _ mem with
      | view grounded _ pictures => exact ⟨_, grounded, pictures⟩

/-- A child that is seen in a view is found in the schema, too. -/
theorem step? (h : s.Informed v) (hsees : s.Sees id step c) :
    (s.store.schema id).step? step = some c := by
  cases hsees with
  | schema found => exact found
  | view given source found =>
      obtain ⟨f, _, hpictures⟩ := h.pictures given
      rw [hpictures.made] at found
      rw [← source, ← View.handle?_sequential, found]
      rfl

theorem stands (h : s.Informed v) (hgives : s.Gives id) (hsees : s.Sees id step c) :
    ∃ g, Stands v s.store c g := by
  obtain ⟨f, hf, hstored⟩ := h.given hgives
  obtain ⟨g, hnests, hshown⟩ := hstored.nests (h.step? hsees)
  exact ⟨g, hshown, hnests.grounded hf⟩

/-- A thread is answered with what is right. -/
theorem answer (h : s.Informed v) (wish : Wish) (hgrows : s.store.Grows store')
    (hstands : Stands v store' c g) (hsettles : store'.Settles g result) :
    State.Informed v { s.put i (wish.next c result) with
      store := store', log := wish.events i c result ++ s.log } := by
  have hlater := h.later (wish.events i c result) hgrows (wish.events_fit hstands hsettles)
  have hmem := List.mem_append_left s.log (answered_mem_events wish i c result)
  exact hlater.put (wish.next_fits hstands hsettles hmem)

/-- What a child is to keep is right, and leads to a later state of the store. -/
theorem keeping (h : s.Informed v) (hguarded : s.Guarded)
    (hkeeping : s.threads i = .keeping c wish result) (hshown : s.store.fragment? c = some g) :
    s.store.Grows (s.store.kept c g.value result) ∧ Stands v s.store c g ∧
      s.store.Settles g result := by
  have hi := h.threads i
  rw [hkeeping] at hi
  obtain ⟨g', hstands, hsettles⟩ := hi
  obtain rfl := Option.some.inj (hshown.symm.trans hstands.1)
  have hunkept := hguarded.unkept i c (some result) (by rw [hkeeping]; rfl)
  exact ⟨Store.grows_kept_fragment hshown hunkept hsettles, hstands, hsettles⟩

theorem moves (h : s.Informed v) (hguarded : s.Guarded) (hv : v.InMemory)
    (hmoves : Moves v i s s') : s'.Informed v := by
  have hi := h.threads i
  cases hmoves with
  | @load schema idle accepted =>
      obtain ⟨happends, hshows⟩ := Store.add_spec schema s.store trivial
      refine h.later [.loaded _] happends.grows fun event hevent => ?_
      obtain rfl := List.mem_singleton.mp hevent
      exact ⟨schema, accepted, hshows⟩
  | ask idle given sees wish => exact h.put (h.stands given sees)
  | @find c wish result asking kept =>
      rw [asking] at hi
      obtain ⟨g, hstands⟩ := hi
      exact h.answer wish (.refl _) hstands (h.sound.settles hstands.1 kept)
  | take asking unkept free =>
      rw [asking] at hi
      exact h.put hi
  | @build c wish g building shown =>
      rw [building] at hi
      obtain ⟨g', hstands⟩ := hi
      obtain rfl := Option.some.inj (shown.symm.trans hstands.1)
      have hgrows := (Store.build_appends g s.store).grows
      have hsettles := Store.build_settles g s.store
      have hlater := h.later [.built c _] hgrows fun event hevent => by
        obtain rfl := List.mem_singleton.mp hevent
        exact ⟨g, hstands.grows hgrows, hsettles⟩
      exact hlater.put ⟨g, hstands.grows hgrows, hsettles⟩
  | @keep c wish result g keeping shown =>
      obtain ⟨hgrows, hstands, hsettles⟩ := h.keeping hguarded keeping shown
      exact h.answer wish hgrows (hstands.grows hgrows) (hgrows.settles hsettles)
  | look idle given limit => exact h.put ⟨h.given given, nofun⟩
  | @view child? id limit _ result viewing assembled =>
      rw [viewing] at hi
      obtain ⟨⟨f, hf, hstored⟩, hanswered⟩ := hi
      have houtcome := hstored.outcome hv hf assembled
      have hlater := h.later [viewEvent i id limit result child?] (.refl _) fun event hevent => by
        obtain rfl := List.mem_singleton.mp hevent
        cases child? with
        | none => exact houtcome
        | some c => exact Or.inr ⟨id, List.mem_cons_of_mem _ (hanswered c rfl), houtcome⟩
      have hidle : Thread.Fits v s.store (viewEvent i id limit result child? :: s.log) i .idle :=
        trivial
      exact hlater.put hidle
  | panic viewing panics => exact h.put trivial
  | elsewhere appends => exact h.later [] appends.grows (List.forall_mem_nil _)

/-- A move leads to a later state of the store. -/
theorem grows (h : s.Informed v) (hguarded : s.Guarded) (hmoves : Moves v i s s') :
    s.store.Grows s'.store := by
  cases hmoves with
  | @load schema => exact (Store.add_spec schema s.store trivial).1.grows
  | @build c wish g => exact (Store.build_appends g s.store).grows
  | keep keeping shown => exact (h.keeping hguarded keeping shown).1
  | elsewhere appends => exact appends.grows
  | _ => exact .refl _

end Informed

/-! ### New schemas are stored at new addresses -/

/-- The addresses of new schemas are taken, and no two are the same. -/
structure Born (s : State) : Prop where
  distinct : (s.log.filterMap Event.born?).Nodup
  stored : ∀ id ∈ s.log.filterMap Event.born?, ∃ t, s.store.schema? id = some t

namespace Born

/-- Nothing is born. -/
theorem quiet (h : s.Born) (events : List Event) (hgrows : s.store.Grows s'.store)
    (hlog : s'.log = events ++ s.log) (hborn : events.filterMap Event.born? = []) : s'.Born := by
  have hsame : s'.log.filterMap Event.born? = s.log.filterMap Event.born? := by
    rw [hlog, List.filterMap_append, hborn, List.nil_append]
  constructor
  · rw [hsame]
    exact h.distinct
  · rw [hsame]
    intro id hid
    obtain ⟨t, ht⟩ := h.stored id hid
    exact ⟨t, hgrows.schemas id t ht⟩

/-- A schema is born where none has been stored. -/
theorem birth (h : s.Born) (hgrows : s.store.Grows s'.store) (hlog : s'.log = event :: s.log)
    (hborn : event.born? = some id) (hfresh : s.store.schema? id = none)
    (hstored : ∃ t, s'.store.schema? id = some t) : s'.Born := by
  have hcons : s'.log.filterMap Event.born? = id :: s.log.filterMap Event.born? := by
    rw [hlog, List.filterMap_cons_some hborn]
  constructor
  · rw [hcons]
    refine List.nodup_cons.mpr ⟨fun hmem => ?_, h.distinct⟩
    obtain ⟨t, ht⟩ := h.stored id hmem
    cases hfresh.symm.trans ht
  · rw [hcons]
    refine List.forall_mem_cons.mpr ⟨hstored, fun id' hid' => ?_⟩
    obtain ⟨t, ht⟩ := h.stored id' hid'
    exact ⟨t, hgrows.schemas id' t ht⟩

theorem moves (h : s.Born) (hgrows : s.store.Grows s'.store) (hmoves : Moves v i s s') :
    s'.Born := by
  cases hmoves with
  | @load schema idle accepted =>
      obtain ⟨t, ht, _⟩ := (Store.add_spec schema s.store trivial).2
      exact h.birth hgrows rfl rfl (Store.schema?_add schema s.store) ⟨t, ht⟩
  | ask => exact h.quiet [] hgrows rfl rfl
  | @find c wish result => exact h.quiet _ hgrows rfl (born?_events wish i c result)
  | take => exact h.quiet [] hgrows rfl rfl
  | @build c wish g building shown =>
      have hsettles := Store.build_settles g s.store
      cases hresult : (Store.build g s.store).1 with
      | error e =>
          exact h.quiet [.built c (.error e)] hgrows rfl rfl
      | ok id =>
          rw [hresult] at hsettles
          obtain ⟨_, _, t, ht, _⟩ := hsettles
          have hfresh := Store.schema?_build hresult
          exact h.birth hgrows rfl rfl hfresh ⟨t, ht⟩
  | @keep c wish result => exact h.quiet _ hgrows rfl (born?_events wish i c result)
  | look => exact h.quiet [] hgrows rfl rfl
  | @view child? id limit _ result =>
      refine h.quiet [viewEvent i id limit result child?] hgrows rfl ?_
      rw [List.filterMap_cons_none (born?_viewEvent i id limit result child?), List.filterMap_nil]
  | panic => exact h.quiet [] hgrows rfl rfl
  | elsewhere => exact h.quiet [] hgrows rfl rfl

end Born

end State
end Sharing
end ApiSchema
