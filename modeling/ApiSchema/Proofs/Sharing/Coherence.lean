import ApiSchema.Proofs.Sharing.Informed
import ApiSchema.Proofs.View.Equality
import Mathlib.Algebra.Order.BigOperators.Group.Finset
import Mathlib.Logic.Relation

/-!
Threads that share a document agree on it.

A fragment is built once at most, and all that ask its child get the one result, which is what
anyone would get who asked alone. So paths from a root lead to schemas of their own: the same path
always to the same one, with equal views, and different paths to different ones, with views that are
not equal.
-/

namespace ApiSchema

open Source (Schema Fragment)

variable {store store' : Store} {v : Json} {id id' root : SchemaId} {c : ChildId} {f g : Fragment}
  {step : Step} {path path' : List Step}

/-- Two results come to the same: the same error, or schemas that show the same. -/
inductive Store.Agree (store store' : Store) :
    Except LoadError SchemaId → Except LoadError SchemaId → Prop
  | error (e : LoadError) : Agree store store' (.error e) (.error e)
  | ok {id id' : SchemaId} {s : Schema Fragment} (left : store.Shows id s)
      (right : store'.Shows id' s) : Agree store store' (.ok id) (.ok id')

/-- Right results of building one fragment come to the same. -/
theorem Store.Settles.agree {result result' : Except LoadError SchemaId}
    (h : store.Settles g result) (h' : store'.Settles g result') :
    Store.Agree store store' result result' := by
  cases result with
  | error e =>
      cases result' with
      | error e' =>
          cases h.symm.trans h'
          exact .error e
      | ok id' =>
          obtain ⟨s, hbuild, _⟩ := h'
          cases hbuild.symm.trans h
  | ok id =>
      obtain ⟨s, hbuild, hshows⟩ := h
      cases result' with
      | error e' => cases hbuild.symm.trans h'
      | ok id' =>
          obtain ⟨s', hbuild', hshows'⟩ := h'
          cases hbuild.symm.trans hbuild'
          exact .ok hshows hshows'

namespace Sharing
namespace State

variable {s s' : State} {i j : Nat} {event event' : Event} {wish : Wish}
  {result result' : Except LoadError SchemaId}

/-- What holds in every interleaving. -/
theorem Run.kept (hv : v.InMemory) (h : Run v s) : s.Guarded ∧ s.Informed v ∧ s.Born := by
  induction h with
  | start => exact ⟨.start, .start, ⟨List.nodup_nil, List.forall_mem_nil _⟩⟩
  | next _ moves ih =>
      obtain ⟨hguarded, hinformed, hborn⟩ := ih
      exact ⟨hguarded.moves moves, hinformed.moves hguarded hv moves,
        hborn.moves (hinformed.grows hguarded moves) moves⟩

/-! ### No call waits in vain -/

theorem left_put {before after : Thread} (hbefore : s.threads i = before)
    (hleft : after.left < before.left) : ((s.put i after).threads i).left < (s.threads i).left := by
  rw [hbefore, threads_put_self]
  exact hleft

theorem left_next (wish : Wish) (c : ChildId) (result : Except LoadError SchemaId) :
    (wish.next c result).left < 2 := by
  cases result <;> cases wish <;> simp [Wish.next, Thread.left]

theorem left_found (wish : Wish) (c : ChildId) (result : Except LoadError SchemaId) :
    (wish.next c result).left < (Thread.asking c wish).left :=
  Nat.lt_trans (left_next wish c result) (show 2 < 4 by decide)

/-- A move brings a thread that is not idle nearer to being so, unless it only adds to the store,
and leaves the others where they are. -/
theorem Moves.nears (h : Moves v i s s') : s'.threads = s.threads ∨
    (s.threads i = .idle ∨ (s'.threads i).left < (s.threads i).left) ∧
      ∀ j, j ≠ i → s'.threads j = s.threads j := by
  have hothers : ∀ (thread : Thread) (j : Nat), j ≠ i → (s.put i thread).threads j = s.threads j :=
    fun thread _ hj => threads_put_of_ne s thread hj
  cases h with
  | load => exact Or.inl rfl
  | elsewhere => exact Or.inl rfl
  | ask idle => exact Or.inr ⟨Or.inl idle, hothers _⟩
  | look idle => exact Or.inr ⟨Or.inl idle, hothers _⟩
  | find asking => exact Or.inr ⟨Or.inr (left_put asking (left_found _ _ _)), hothers _⟩
  | take asking => exact Or.inr ⟨Or.inr (left_put asking (Nat.lt_succ_self 3)), hothers _⟩
  | build building => exact Or.inr ⟨Or.inr (left_put building (Nat.lt_succ_self 2)), hothers _⟩
  | keep keeping => exact Or.inr ⟨Or.inr (left_put keeping (left_next _ _ _)), hothers _⟩
  | view viewing => exact Or.inr ⟨Or.inr (left_put viewing Nat.zero_lt_one), hothers _⟩
  | panic viewing => exact Or.inr ⟨Or.inr (left_put viewing Nat.zero_lt_one), hothers _⟩

/-- All but finitely many threads are idle. -/
theorem Run.idle (h : Run v s) : ∃ n, ∀ j, n ≤ j → s.threads j = .idle := by
  induction h with
  | start => exact ⟨0, fun _ _ => rfl⟩
  | @next s s' i _ moves ih =>
      obtain ⟨n, hidle⟩ := ih
      rcases moves.nears with hsame | ⟨_, hothers⟩
      · exact ⟨n, fun j hj => (congrFun hsame j).trans (hidle j hj)⟩
      · refine ⟨max n (i + 1), fun j hj => ?_⟩
        rw [hothers j (by omega)]
        exact hidle j (by omega)

/-- A thread that has begun something works at it. -/
def Works (v : Json) (s s' : State) : Prop :=
  ∃ i, Moves v i s s' ∧ (s'.threads i).left < (s.threads i).left

/-- The threads cannot work forever, as they have so many moves left. -/
theorem Run.ends (h : Run v s) : Acc (fun s' s => Works v s s') s := by
  obtain ⟨n, hidle⟩ := h.idle
  generalize hleft : (∑ j ∈ Finset.range n, (s.threads j).left) = left
  induction left using Nat.strongRecOn generalizing s with
  | ind left ih =>
      refine Acc.intro s fun s' ⟨i, hmoves, hlower⟩ => ?_
      have hothers : ∀ j, j ≠ i → s'.threads j = s.threads j := by
        rcases hmoves.nears with hsame | ⟨_, hothers⟩
        · exact fun j _ => congrFun hsame j
        · exact hothers
      have hi : i < n := by
        by_contra hge
        rw [hidle i (Nat.le_of_not_lt hge)] at hlower
        exact Nat.not_lt_zero _ hlower
      have hidle' : ∀ j, n ≤ j → s'.threads j = .idle := by
        intro j hj
        rw [hothers j (by omega)]
        exact hidle j hj
      have hsum : (∑ j ∈ Finset.range n, (s'.threads j).left) < left := by
        rw [← hleft]
        refine Finset.sum_lt_sum (fun j _ => ?_) ⟨i, Finset.mem_range.mpr hi, hlower⟩
        by_cases hj : j = i
        · exact hj ▸ Nat.le_of_lt hlower
        · rw [hothers j hj]
      exact ih _ hsum (h.next hmoves) hidle' rfl

/-- A thread that has taken a child can move. -/
theorem exists_moves_of_taken {x : Option (Except LoadError SchemaId)} (h : s.Informed v)
    (htaken : (s.threads i).taken? = some (c, x)) :
    ∃ s', Moves v i s s' ∧ (s'.threads i).left < (s.threads i).left := by
  have hi := h.threads i
  cases hthread : s.threads i with
  | building c' wish =>
      rw [hthread] at hi
      obtain ⟨g, hshown, _⟩ := hi
      exact ⟨_, .build hthread hshown, hthread ▸ left_put hthread (Nat.lt_succ_self 2)⟩
  | keeping c' wish result =>
      rw [hthread] at hi
      obtain ⟨g, ⟨hshown, _⟩, _⟩ := hi
      exact ⟨_, .keep hthread hshown, hthread ▸ left_put hthread (left_next wish c' result)⟩
  | _ =>
      rw [hthread] at htaken
      cases htaken

/-- A thread that is not idle can move on, or waits for one that can. -/
theorem exists_moves (h : s.Informed v) (hv : v.InMemory) (hbusy : s.threads i ≠ .idle) :
    ∃ j s', Moves v j s s' ∧ (s'.threads j).left < (s.threads j).left ∧
      (j = i ∨ ∃ c wish x, s.threads i = .asking c wish ∧ (s.threads j).taken? = some (c, x)) := by
  cases hthread : s.threads i with
  | idle => exact absurd hthread hbusy
  | asking c wish =>
      cases hkept : s.store.kept? c with
      | some result =>
          exact ⟨i, _, .find hthread hkept, left_put hthread (left_found wish c result), Or.inl rfl⟩
      | none =>
          by_cases hfree : ∀ j x, (s.threads j).taken? ≠ some (c, x)
          · exact ⟨i, _, .take hthread hkept hfree, left_put hthread (Nat.lt_succ_self 3),
              Or.inl rfl⟩
          · obtain ⟨j, hj⟩ := not_forall.mp hfree
            obtain ⟨x, hx⟩ := not_forall.mp hj
            have htaken := not_not.mp hx
            obtain ⟨s', hmoves, hleft⟩ := exists_moves_of_taken h htaken
            exact ⟨j, s', hmoves, hleft, Or.inr ⟨c, wish, x, rfl, htaken⟩⟩
  | building c wish =>
      have htaken : (s.threads i).taken? = some (c, none) := by rw [hthread]; rfl
      obtain ⟨s', hmoves, hleft⟩ := exists_moves_of_taken h htaken
      exact ⟨i, s', hmoves, hleft, Or.inl rfl⟩
  | keeping c wish result =>
      have htaken : (s.threads i).taken? = some (c, some result) := by rw [hthread]; rfl
      obtain ⟨s', hmoves, hleft⟩ := exists_moves_of_taken h htaken
      exact ⟨i, s', hmoves, hleft, Or.inl rfl⟩
  | viewing child? id limit =>
      have hi := h.threads i
      rw [hthread] at hi
      obtain ⟨⟨f, hf, s₁, hload, hshows⟩, _⟩ := hi
      have hmemory := Nat.lt_trans (Store.units_of_shows hload hshows) (hv.part hf).addressable
      cases hresult : Assembly.assemble 1 limit id (s.store.schema id) with
      | some result =>
          have hassembles := Assembly.assembles_of_assemble hresult
          exact ⟨i, _, .view hthread hassembles, left_put hthread Nat.zero_lt_one, Or.inl rfl⟩
      | none =>
          have hpanics := (Assembly.panics_of_assemble hmemory (Nat.le_refl 1) hresult).1
          exact ⟨i, _, .panic hthread hpanics, left_put hthread Nat.zero_lt_one, Or.inl rfl⟩

/-- A thread that asks, while nobody has taken the child and nobody comes in between, does what
`Store.schemaOf` does. -/
theorem exists_solo (h : s.Informed v) (hasking : s.threads i = .asking c wish)
    (hfree : ∀ j x, (s.threads j).taken? ≠ some (c, x)) :
    ∃ s', Relation.ReflTransGen (Moves v i) s s' ∧ s'.store = (Store.schemaOf c s.store).2 ∧
      .answered i c (Store.schemaOf c s.store).1 ∈ s'.log := by
  cases hkept : s.store.kept? c with
  | some result =>
      rw [Store.schemaOf_of_kept? hkept]
      exact ⟨_, .single (.find hasking hkept), rfl,
        List.mem_append_left _ (answered_mem_events wish i c result)⟩
  | none =>
      have hi := h.threads i
      rw [hasking] at hi
      obtain ⟨g, hshown, _⟩ := hi
      have hshown' := (Store.build_appends g s.store).grows.fragment? hshown
      have htake : Moves v i s (s.put i (.building c wish)) := .take hasking hkept hfree
      have hbuild : Moves v i (s.put i (.building c wish)) _ :=
        .build (threads_put_self s i _) hshown
      have hkeeping := threads_put_self (s.put i (.building c wish)) i
        (.keeping c wish (Store.build g s.store).1)
      have hsolo := ((Relation.ReflTransGen.single htake).tail hbuild).tail (.keep hkeeping hshown')
      rw [Store.schemaOf_of_unkept hshown hkept]
      exact ⟨_, hsolo, rfl, List.mem_append_left _ (answered_mem_events wish i c _)⟩

/-! ### Walks -/

/-- A path leads from a root to a schema, child by child, each of which has answered some thread or
been opened by one. -/
inductive Walked (s : State) (root : SchemaId) : List Step → SchemaId → Prop
  | start : Walked s root [] root
  | down {front : List Step} {id : SchemaId} {step : Step} {i : Nat} {c : ChildId} {id' : SchemaId}
      (before : Walked s root front id) (sees : s.Sees id step c)
      (answered : .answered i c (.ok id') ∈ s.log) : Walked s root (front ++ [step]) id'
  | through {front : List Step} {id : SchemaId} {step : Step} {i : Nat} {c : ChildId}
      {limit : Option Duration} {view : View} (before : Walked s root front id)
      (sees : s.Sees id step c) (opened : .opened i c limit (.ok view) ∈ s.log) :
      Walked s root (front ++ [step]) view.source

theorem Walked.nil (h : s.Walked root [] id) : id = root := by
  generalize hpath : ([] : List Step) = path at h
  cases h with
  | start => rfl
  | down => simp at hpath
  | through => simp at hpath

/-- The last step of a walk goes to a child that has answered, however it was made. -/
theorem Walked.snoc {front : List Step} (h : s.Walked root (front ++ [step]) id)
    (hinformed : s.Informed v) : ∃ before i c, s.Walked root front before ∧
      (s.store.schema before).step? step = some c ∧ .answered i c (.ok id) ∈ s.log := by
  generalize hpath : front ++ [step] = path at h
  cases h with
  | start => simp at hpath
  | down before sees answered =>
      obtain ⟨rfl, hstep⟩ := List.append_inj' hpath rfl
      cases hstep
      exact ⟨_, _, _, before, hinformed.step? sees, answered⟩
  | through before sees opened =>
      obtain ⟨rfl, hstep⟩ := List.append_inj' hpath rfl
      cases hstep
      exact ⟨_, _, _, before, hinformed.step? sees, (hinformed.opened opened).1⟩

/-- All answers of a child are the same. -/
theorem Guarded.agree (h : s.Guarded) (hanswered : .answered i c result ∈ s.log)
    (hanswered' : .answered j c result' ∈ s.log) : result = result' :=
  Option.some.inj ((h.answered i c result hanswered).symm.trans (h.answered j c result' hanswered'))

/-- Walks of one path come to one schema. -/
theorem Walked.eq (hguarded : s.Guarded) (hinformed : s.Informed v) (h : s.Walked root path id)
    (h' : s.Walked root path id') : id = id' := by
  -- The induction takes off the last step, where the children are the same once the schemas are.
  induction path using List.reverseRecOn generalizing id id' with
  | nil => rw [h.nil, h'.nil]
  | append_singleton front step ih =>
      obtain ⟨before, i, c, hwalked, hc, hanswered⟩ := h.snoc hinformed
      obtain ⟨before', j, c', hwalked', hc', hanswered'⟩ := h'.snoc hinformed
      obtain rfl := ih hwalked hwalked'
      obtain rfl := Option.some.inj (hc.symm.trans hc')
      exact Except.ok.inj (hguarded.agree hanswered hanswered')

/-- A walk goes down the document, and comes to a schema that was loaded if it is the root, and
built for the child at the end of the path if it is not. -/
theorem Walked.leads (hguarded : s.Guarded) (hinformed : s.Informed v)
    (hroot : .loaded root ∈ s.log) (h : s.Walked root path id) :
    ∃ f, Fragment.Leads ⟨.root, v⟩ path f ∧ f.StoredAt s.store id ∧
      (path = [] ∧ id = root ∨ ∃ c, .built c (.ok id) ∈ s.log ∧ s.store.fragment? c = some f) := by
  induction path using List.reverseRecOn generalizing id with
  | nil =>
      obtain rfl := h.nil
      exact ⟨_, .here _, hinformed.log _ hroot, Or.inl ⟨rfl, rfl⟩⟩
  | append_singleton front step ih =>
      obtain ⟨before, i, c, hwalked, hc, hanswered⟩ := h.snoc hinformed
      obtain ⟨f, hleads, hstored, _⟩ := ih hwalked
      obtain ⟨g, hnests, hshown⟩ := hstored.nests hc
      obtain ⟨g', ⟨hshown', _⟩, hsettles⟩ := hinformed.log _ hanswered
      obtain rfl := Option.some.inj (hshown.symm.trans hshown')
      have hbuilt := hguarded.settled c _ (hguarded.answered i c _ hanswered)
      have hstored' := storedAt_of_settles hsettles
      obtain ⟨t, hbuild, _⟩ := hsettles
      exact ⟨g, hleads.append (.down hnests (Fragment.builds_iff.mpr hbuild) (.here g)), hstored',
        Or.inr ⟨c, hbuilt, hshown⟩⟩

/-- A schema is born in one event only. -/
theorem Born.event_eq (h : s.Born) (hmem : event ∈ s.log) (hmem' : event' ∈ s.log)
    (hborn : event.born? = some id) (hborn' : event'.born? = some id) : event = event' := by
  by_contra hne
  have hpairs := List.pairwise_filterMap.mp h.distinct
  have hsymm : Std.Symm fun a b : Event =>
      ∀ id, a.born? = some id → ∀ id', b.born? = some id' → id ≠ id' :=
    ⟨fun a b hab id hb id' ha => (hab id' ha id hb).symm⟩
  exact hpairs.forall hmem hmem' hne id hborn id hborn' rfl

/-- Walks that come to one schema are of one path. -/
theorem Walked.path_eq (hguarded : s.Guarded) (hinformed : s.Informed v) (hborn : s.Born)
    (hroot : .loaded root ∈ s.log) (h : s.Walked root path id) (h' : s.Walked root path' id) :
    path = path' := by
  obtain ⟨f, hleads, _, hend⟩ := h.leads hguarded hinformed hroot
  obtain ⟨f', hleads', _, hend'⟩ := h'.leads hguarded hinformed hroot
  rcases hend with ⟨rfl, rfl⟩ | ⟨c, hbuilt, hshown⟩
  · rcases hend' with ⟨rfl, _⟩ | ⟨c, hbuilt, _⟩
    · rfl
    · cases hborn.event_eq hroot hbuilt rfl rfl
  · rcases hend' with ⟨_, rfl⟩ | ⟨c', hbuilt', hshown'⟩
    · cases hborn.event_eq hroot hbuilt rfl rfl
    · cases hborn.event_eq hbuilt hbuilt' rfl rfl
      obtain rfl := Option.some.inj (hshown.symm.trans hshown')
      exact (hleads.chain.path_eq hleads'.chain rfl).1

/-! ### Coherence -/

/-- Views of one schema are one and the same, and equal themselves. -/
theorem Informed.view_eq {a b : View} (h : s.Informed v) (hdistinct : v.Distinct)
    (hnumeric : v.numeric = true) (ha : s.Views a) (hb : s.Views b)
    (hsource : a.source = b.source) : a = b ∧ a.same b = true := by
  obtain ⟨f, hf, hpictures⟩ := h.pictures ha
  obtain ⟨f', _, hpictures'⟩ := h.pictures hb
  have heq : a = b := by
    rw [hpictures.made, hpictures'.made, hsource]
  refine ⟨heq, heq ▸ hpictures.same_self ?_ ?_⟩
  · exact Pointer.resolve?_distinct hdistinct hf
  · exact Pointer.resolve?_numeric hnumeric hf

/-- Views of one child, with all the time they take, come to the same. -/
theorem Informed.opened_eq {outcome outcome' : Except Failure View} (h : s.Informed v)
    (hguarded : s.Guarded) (hopened : .opened i c none outcome ∈ s.log)
    (hopened' : .opened j c none outcome' ∈ s.log) : outcome = outcome' := by
  rcases h.log _ hopened with ⟨e, hanswered, rfl⟩ | ⟨id, hanswered, houtcome⟩
  · rcases h.log _ hopened' with ⟨e', hanswered', rfl⟩ | ⟨id', hanswered', _⟩
    · cases hguarded.agree hanswered hanswered'
      rfl
    · cases hguarded.agree hanswered hanswered'
  · rcases h.log _ hopened' with ⟨e', hanswered', _⟩ | ⟨id', hanswered', houtcome'⟩
    · cases hguarded.agree hanswered hanswered'
    · cases hguarded.agree hanswered hanswered'
      cases houtcome with
      | timeout limited => cases limited
      | view _ source pictures =>
          cases houtcome' with
          | timeout limited => cases limited
          | view _ source' pictures' => rw [pictures.made, pictures'.made, source, source']

/-- What holds of threads that share a document, at any time. -/
structure Coherent (v : Json) (s : State) : Prop where
  /-- No fragment is built twice. -/
  once : (s.log.filterMap Event.built?).Nodup
  /-- All answers of a child are the same. -/
  agree : ∀ {i j c result result'}, .answered i c result ∈ s.log → .answered j c result' ∈ s.log →
    result = result'
  /-- The answer is what the fragment of the child determines. -/
  right : ∀ {i c result}, .answered i c result ∈ s.log → ∃ g, Stands v s.store c g ∧
    (∀ e, result = .error e ↔ g.Refuses e) ∧
      ∀ id, result = .ok id → ∃ t, g.Builds t ∧ s.store.Shows id t
  /-- Who asks alone, in whatever store, is answered alike. -/
  alone : ∀ {i c result g store' c'}, .answered i c result ∈ s.log → s.store.fragment? c = some g →
    store'.Sound → store'.fragment? c' = some g →
      s.store.Agree (Store.schemaOf c' store').2 result (Store.schemaOf c' store').1
  /-- Who asks later, with nobody else about, gets the very same answer. -/
  again : ∀ {i c result}, .answered i c result ∈ s.log →
    Store.schemaOf c s.store = (result, s.store)
  /-- Who asks while nobody else is about does what `Store.schemaOf` does. -/
  solo : ∀ {i c wish}, s.threads i = .asking c wish → (∀ j x, (s.threads j).taken? ≠ some (c, x)) →
    ∃ s', Relation.ReflTransGen (Moves v i) s s' ∧ s'.store = (Store.schemaOf c s.store).2 ∧
      .answered i c (Store.schemaOf c s.store).1 ∈ s'.log
  /-- What comes of viewing a child is its error, a view of its schema, or a failure for want of
  time. -/
  opened : ∀ {i c limit result}, .opened i c limit result ∈ s.log →
    (∃ e, .answered i c (.error e) ∈ s.log ∧ result = .error (.build e)) ∨
      ∃ id, .answered i c (.ok id) ∈ s.log ∧
        ((∃ view : View, result = .ok view ∧ view.source = id) ∨
          ∃ elapsed bound, limit = some bound ∧ result = .error (.timeout elapsed bound))
  /-- Without a limit, all views of a child come to the same. -/
  openedAgree : ∀ {i j c outcome outcome'}, .opened i c none outcome ∈ s.log →
    .opened j c none outcome' ∈ s.log → outcome = outcome'
  /-- Views of one schema are equal. -/
  views : ∀ {a b}, s.Views a → s.Views b → a.source = b.source → a = b ∧ a.same b = true
  /-- Walks of one path come to one schema, and their views are equal. -/
  same : ∀ {root path id id'}, s.Walked root path id → s.Walked root path id' → id = id'
  sameViews : ∀ {root path} {a b : View}, s.Walked root path a.source →
    s.Walked root path b.source → s.Views a → s.Views b → a = b ∧ a.same b = true
  /-- Walks of different paths come to different schemas, and their views are not equal. -/
  apart : ∀ {root path path' id id'}, .loaded root ∈ s.log → s.Walked root path id →
    s.Walked root path' id' → path ≠ path' → id ≠ id'
  apartViews : ∀ {root path path'} {a b : View}, .loaded root ∈ s.log →
    s.Walked root path a.source → s.Walked root path' b.source → path ≠ path' → a.same b = false
  /-- A thread that is not idle can move on, or waits for one that can. -/
  moves : ∀ {i}, s.threads i ≠ .idle → ∃ j s', Moves v j s s' ∧
    (s'.threads j).left < (s.threads j).left ∧
      (j = i ∨ ∃ c wish x, s.threads i = .asking c wish ∧ (s.threads j).taken? = some (c, x))
  /-- Threads that begin nothing new are all idle in the end. -/
  ends : Acc (fun s' s => Works v s s') s

/-- In every interleaving, threads that share a document agree on it. -/
theorem run_coherent (hv : v.InMemory) (hnumeric : v.numeric = true) (hrun : Run v s) :
    Coherent v s := by
  obtain ⟨hguarded, hinformed, hborn⟩ := hrun.kept hv
  exact {
    once := hguarded.once
    agree := hguarded.agree
    right := by
      intro i c result hanswered
      obtain ⟨g, hstands, hsettles⟩ := hinformed.log _ hanswered
      refine ⟨g, hstands, fun e => ?_, fun id hid => ?_⟩
      · rw [Fragment.refuses_iff]
        cases result with
        | error e' =>
            have hbuild : g.build = .error e' := hsettles
            rw [hbuild, Except.error.injEq, Except.error.injEq]
        | ok id =>
            obtain ⟨t, hbuild, _⟩ := hsettles
            rw [hbuild]
            exact ⟨nofun, nofun⟩
      · subst hid
        obtain ⟨t, hbuild, hshows⟩ := hsettles
        exact ⟨t, Fragment.builds_iff.mpr hbuild, hshows⟩
    alone := by
      intro i c result g store' c' hanswered hshown hsound hshown'
      obtain ⟨g', ⟨hshown'', _⟩, hsettles⟩ := hinformed.log _ hanswered
      obtain rfl := Option.some.inj (hshown.symm.trans hshown'')
      exact hsettles.agree (Store.schemaOf_settles hsound hshown')
    again := fun hanswered => Store.schemaOf_of_kept? (hguarded.answered _ _ _ hanswered)
    solo := exists_solo hinformed
    opened := by
      intro i c limit result hopened
      refine (hinformed.log _ hopened).imp_right fun ⟨id, hanswered, houtcome⟩ =>
        ⟨id, hanswered, ?_⟩
      cases houtcome with
      | view _ source _ => exact Or.inl ⟨_, rfl, source⟩
      | timeout limited => exact Or.inr ⟨_, _, limited, rfl⟩
    openedAgree := hinformed.opened_eq hguarded
    views := hinformed.view_eq hv.distinct hnumeric
    same := fun hwalked hwalked' => hwalked.eq hguarded hinformed hwalked'
    sameViews := fun hwalked hwalked' ha hb =>
      hinformed.view_eq hv.distinct hnumeric ha hb (hwalked.eq hguarded hinformed hwalked')
    apart := by
      rintro root path path' id id' hroot hwalked hwalked' hne rfl
      exact hne (hwalked.path_eq hguarded hinformed hborn hroot hwalked')
    apartViews := by
      intro root path path' a b hroot hwalked hwalked' hne
      refine View.same_eq_false fun hsource => ?_
      exact hne (hwalked.path_eq hguarded hinformed hborn hroot (hsource ▸ hwalked'))
    moves := exists_moves hinformed hv
    ends := hrun.ends }

def loneDocument : Json :=
  .obj [("items", .obj [("title", .str "t")])]

/-- Two threads ask for the nested schema, the second while the first builds it, and get the
same. -/
theorem run_coherent_pair : ∃ s, Run loneDocument s ∧ Coherent loneDocument s ∧
    ∃ c id, .answered 0 c (.ok id) ∈ s.log ∧ .answered 1 c (.ok id) ∈ s.log := by
  have hload : Run loneDocument _ := .next (i := 0) .start (.load rfl rfl)
  have hfirst : Run loneDocument _ := .next (i := 0) hload (.ask rfl (.loaded List.mem_cons_self)
    (.schema rfl : Sees _ ⟨1⟩ (.element .items 0) ⟨0⟩) .schema)
  have htake : Run loneDocument _ := .next (i := 0) hfirst (.take rfl rfl fun j x htaken => by
    have hidle := (taken?_put_of_eq (i := 0) ?_ j).symm.trans htaken
    · cases hidle
    · rfl)
  have hsecond : Run loneDocument _ := .next (i := 1) htake (.ask rfl (.loaded List.mem_cons_self)
    (.schema rfl : Sees _ ⟨1⟩ (.element .items 0) ⟨0⟩) .schema)
  have hbuild : Run loneDocument _ := .next (i := 0) hsecond (.build rfl rfl)
  have hkeep : Run loneDocument _ := .next (i := 0) hbuild (.keep rfl rfl)
  have hfind : Run loneDocument _ := .next (i := 1) hkeep (.find rfl rfl)
  refine ⟨_, hfind, run_coherent ⟨by decide, by decide⟩ (by decide) hfind, _, _, ?_,
    List.mem_cons_self⟩
  exact List.mem_cons_of_mem _ List.mem_cons_self

end State
end Sharing
end ApiSchema
