import ApiSchema.Proofs.Assembly.Refinement
import ApiSchema.Proofs.Store.Keeping
import ApiSchema.Proofs.View.Steps
import Mathlib.Logic.Function.Basic

/-!
Threads that share the children of a document.

A thread asks one child after the other for its schema, or for a view of that. A child that keeps a
result answers with it. Otherwise one of those that ask takes the child, builds the fragment and has
the child keep the result, and the others wait. Threads come upon children in the schemas and views
that any of them has been given, and the log says what has happened so far. A thread whose view
panics is left without a result. The children of a document are all deferred, so nothing is said of
others here.

In every interleaving a child is taken by one thread at a time, and not once it keeps a result
(`Guarded`).
-/

namespace ApiSchema

open Source (Schema Fragment)

variable {store' : Store} {v : Json} {c : ChildId} {g : Fragment}

/-- The nested schema that a step finds in a schema. -/
def Source.Schema.step? {C : Type} (s : Schema C) (step : Step) : Option C :=
  step.lookup? (fun a => (s.elements a).map (·.value)) (s.entries.map fun e => (e.key, e.value))

namespace Sharing

/-- What a child is asked for: its schema, or a view of that within a limit. -/
inductive Wish where
  | schema
  | view (limit : Option Duration)

/-- What a thread is at. -/
inductive Thread where
  | idle
  /-- It asks a child. -/
  | asking (child : ChildId) (wish : Wish)
  /-- It has taken the child, and builds the fragment. -/
  | building (child : ChildId) (wish : Wish)
  /-- It has built the fragment, and the child is to keep the result. -/
  | keeping (child : ChildId) (wish : Wish) (result : Except LoadError SchemaId)
  /-- It views a schema, the answer of a child if it has asked one. -/
  | viewing (child? : Option ChildId) (id : SchemaId) (limit : Option Duration)

/-- Something that has happened. -/
inductive Event where
  /-- The document has been loaded. -/
  | loaded (id : SchemaId)
  /-- The fragment of a child has been built. -/
  | built (child : ChildId) (result : Except LoadError SchemaId)
  /-- A child has answered a thread. -/
  | answered (thread : Nat) (child : ChildId) (result : Except LoadError SchemaId)
  /-- A thread has got what came of viewing the schema of a child. -/
  | opened (thread : Nat) (child : ChildId) (limit : Option Duration) (result : Except Failure View)
  /-- A thread has got what came of viewing a schema. -/
  | viewed (thread : Nat) (id : SchemaId) (limit : Option Duration) (result : Except Failure View)

/-- The store, the threads by number, and what has happened, last things first. -/
structure State where
  store : Store := {}
  threads : Nat → Thread := fun _ => .idle
  log : List Event := []

/-- The child that a thread has taken, with the result once there is one. -/
def Thread.taken? : Thread → Option (ChildId × Option (Except LoadError SchemaId))
  | .building c _ => some (c, none)
  | .keeping c _ result => some (c, some result)
  | _ => none

/-- How many moves a thread is away from being idle, at most. -/
def Thread.left : Thread → Nat
  | .idle => 0
  | .viewing _ _ _ => 1
  | .keeping _ _ _ => 2
  | .building _ _ => 3
  | .asking _ _ => 4

/-- What a thread goes on to when a child answers. -/
def Wish.next (wish : Wish) (c : ChildId) : Except LoadError SchemaId → Thread
  | .error _ => .idle
  | .ok id =>
    match wish with
    | .schema => .idle
    | .view limit => .viewing (some c) id limit

/-- What has happened when a child answers. An error is what comes of viewing, too. -/
def Wish.events (wish : Wish) (i : Nat) (c : ChildId) (result : Except LoadError SchemaId) :
    List Event :=
  match wish, result with
  | .view limit, .error e => [.opened i c limit (.error (.build e)), .answered i c result]
  | _, _ => [.answered i c result]

def viewEvent (i : Nat) (id : SchemaId) (limit : Option Duration) (result : Except Failure View) :
    Option ChildId → Event
  | some c => .opened i c limit result
  | none => .viewed i id limit result

/-- The child whose fragment has been built. -/
def Event.built? : Event → Option ChildId
  | .built c _ => some c
  | _ => none

/-- The address at which a new schema has been stored. -/
def Event.born? : Event → Option SchemaId
  | .loaded id => some id
  | .built _ (.ok id) => some id
  | _ => none

namespace State

def put (s : State) (i : Nat) (thread : Thread) : State :=
  { s with threads := Function.update s.threads i thread }

/-- Some thread has been given a schema. -/
inductive Gives (s : State) : SchemaId → Prop
  | loaded {id : SchemaId} (mem : .loaded id ∈ s.log) : Gives s id
  | answered {i : Nat} {c : ChildId} {id : SchemaId} (mem : .answered i c (.ok id) ∈ s.log) :
      Gives s id

/-- Some thread has got a view. -/
inductive Views (s : State) : View → Prop
  | opened {i : Nat} {c : ChildId} {limit : Option Duration} {view : View}
      (mem : .opened i c limit (.ok view) ∈ s.log) : Views s view
  | viewed {i : Nat} {id : SchemaId} {limit : Option Duration} {view : View}
      (mem : .viewed i id limit (.ok view) ∈ s.log) : Views s view

/-- A child is where a step leads from a schema, in the schema itself or in a view of it. -/
inductive Sees (s : State) (id : SchemaId) (step : Step) : ChildId → Prop
  | schema {c : ChildId} (found : (s.store.schema id).step? step = some c) : Sees s id step c
  | view {view : View} {handle : Handle} (given : s.Views view) (source : view.source = id)
      (found : view.handle? step = some handle) : Sees s id step handle.child

/-- The moves of a thread. -/
inductive Moves (v : Json) (i : Nat) (s : State) : State → Prop
  | load {schema : Schema Fragment} (idle : s.threads i = .idle)
      (accepted : Source.load .root v = .ok schema) :
      Moves v i s { s with
        store := (Store.add schema s.store).2
        log := .loaded (Store.add schema s.store).1 :: s.log }
  | ask {id : SchemaId} {step : Step} {c : ChildId} (idle : s.threads i = .idle)
      (given : s.Gives id) (sees : s.Sees id step c) (wish : Wish) :
      Moves v i s (s.put i (.asking c wish))
  | find {c : ChildId} {wish : Wish} {result : Except LoadError SchemaId}
      (asking : s.threads i = .asking c wish) (kept : s.store.kept? c = some result) :
      Moves v i s { s.put i (wish.next c result) with log := wish.events i c result ++ s.log }
  | take {c : ChildId} {wish : Wish} (asking : s.threads i = .asking c wish)
      (unkept : s.store.kept? c = none) (free : ∀ j x, (s.threads j).taken? ≠ some (c, x)) :
      Moves v i s (s.put i (.building c wish))
  | build {c : ChildId} {wish : Wish} {g : Fragment} (building : s.threads i = .building c wish)
      (shown : s.store.fragment? c = some g) :
      Moves v i s { s.put i (.keeping c wish (Store.build g s.store).1) with
        store := (Store.build g s.store).2
        log := .built c (Store.build g s.store).1 :: s.log }
  | keep {c : ChildId} {wish : Wish} {result : Except LoadError SchemaId} {g : Fragment}
      (keeping : s.threads i = .keeping c wish result) (shown : s.store.fragment? c = some g) :
      Moves v i s { s.put i (wish.next c result) with
        store := s.store.kept c g.value result
        log := wish.events i c result ++ s.log }
  /-- A schema that has been given is viewed. -/
  | look {id : SchemaId} (idle : s.threads i = .idle) (given : s.Gives id)
      (limit : Option Duration) : Moves v i s (s.put i (.viewing none id limit))
  /-- The view is assembled, by any number of workers under any schedule. -/
  | view {child? : Option ChildId} {id : SchemaId} {limit : Option Duration} {workers : Nat}
      {result : Except Failure View} (viewing : s.threads i = .viewing child? id limit)
      (assembled : Assembly.Assembles workers limit id (s.store.schema id) result) :
      Moves v i s { s.put i .idle with log := viewEvent i id limit result child? :: s.log }
  /-- The assembly panics, and the thread is left without a result. -/
  | panic {child? : Option ChildId} {id : SchemaId} {limit : Option Duration} {workers : Nat}
      (viewing : s.threads i = .viewing child? id limit)
      (panics : Assembly.Panics workers limit (s.store.schema id)) : Moves v i s (s.put i .idle)
  /-- Something else is stored. -/
  | elsewhere {store' : Store} (appends : s.store.Appends store') :
      Moves v i s { s with store := store' }

/-- The interleavings. -/
inductive Run (v : Json) : State → Prop
  | start : Run v {}
  | next {s s' : State} {i : Nat} (before : Run v s) (moves : Moves v i s s') : Run v s'

variable {s s' : State} {i j : Nat} {wish : Wish} {thread : Thread} {event : Event}
  {result : Except LoadError SchemaId}

@[simp] theorem threads_put_self (s : State) (i : Nat) (thread : Thread) :
    (s.put i thread).threads i = thread := by
  simp only [put, Function.update_self]

@[simp] theorem threads_put_of_ne (s : State) (thread : Thread) (h : j ≠ i) :
    (s.put i thread).threads j = s.threads j := by
  simp only [put, Function.update_of_ne h]

theorem taken?_put (s : State) (i j : Nat) (thread : Thread) :
    ((s.put i thread).threads j).taken? =
      if j = i then thread.taken? else (s.threads j).taken? := by
  by_cases h : j = i
  · rw [if_pos h, h, threads_put_self]
  · rw [if_neg h, threads_put_of_ne s thread h]

/-- A thread that goes on without taking or leaving a child. -/
theorem taken?_put_of_eq (h : thread.taken? = (s.threads i).taken?) (j : Nat) :
    ((s.put i thread).threads j).taken? = (s.threads j).taken? := by
  rw [taken?_put]
  split
  next hj => rw [hj, h]
  next => rfl

theorem taken?_next (wish : Wish) (c : ChildId) (result : Except LoadError SchemaId) :
    (wish.next c result).taken? = none := by
  cases result <;> cases wish <;> rfl

theorem built?_events (wish : Wish) (i : Nat) (c : ChildId) (result : Except LoadError SchemaId) :
    (wish.events i c result).filterMap Event.built? = [] := by
  cases wish <;> cases result <;> rfl

theorem born?_events (wish : Wish) (i : Nat) (c : ChildId) (result : Except LoadError SchemaId) :
    (wish.events i c result).filterMap Event.born? = [] := by
  cases wish <;> cases result <;> rfl

theorem built?_viewEvent (i : Nat) (id : SchemaId) (limit : Option Duration)
    (result : Except Failure View) (child? : Option ChildId) :
    (viewEvent i id limit result child?).built? = none := by
  cases child? <;> rfl

theorem born?_viewEvent (i : Nat) (id : SchemaId) (limit : Option Duration)
    (result : Except Failure View) (child? : Option ChildId) :
    (viewEvent i id limit result child?).born? = none := by
  cases child? <;> rfl

/-- A child answers with nothing but its result. -/
theorem mem_events (h : event ∈ wish.events i c result) : event = .answered i c result ∨
    ∃ limit e, result = .error e ∧ event = .opened i c limit (.error (.build e)) := by
  unfold Wish.events at h
  split at h
  next limit e =>
    rcases List.mem_cons.mp h with rfl | h
    · exact Or.inr ⟨limit, e, rfl, rfl⟩
    · exact Or.inl (List.mem_singleton.mp h)
  next => exact Or.inl (List.mem_singleton.mp h)

theorem answered_mem_events (wish : Wish) (i : Nat) (c : ChildId)
    (result : Except LoadError SchemaId) : .answered i c result ∈ wish.events i c result := by
  cases wish <;> cases result <;> simp [Wish.events]

/-! ### Children are taken by one thread at a time -/

/-- How threads share the children. -/
structure Guarded (s : State) : Prop where
  /-- A child that has been taken keeps no result yet. -/
  unkept : ∀ i c x, (s.threads i).taken? = some (c, x) → s.store.kept? c = none
  sole : ∀ i j c x y, (s.threads i).taken? = some (c, x) → (s.threads j).taken? = some (c, y) →
    i = j
  /-- A result that a child keeps, or is to keep, is that of building its fragment. -/
  pending : ∀ i c result, (s.threads i).taken? = some (c, some result) → .built c result ∈ s.log
  settled : ∀ c result, s.store.kept? c = some result → .built c result ∈ s.log
  /-- No result of building is lost. -/
  tracked : ∀ c result, .built c result ∈ s.log → s.store.kept? c = some result ∨
    ∃ i, (s.threads i).taken? = some (c, some result)
  once : (s.log.filterMap Event.built?).Nodup
  answered : ∀ i c result, .answered i c result ∈ s.log → s.store.kept? c = some result

theorem built_mem_append {events : List Event} (hbuilt : events.filterMap Event.built? = []) :
    .built c result ∈ events ++ s.log ↔ .built c result ∈ s.log := by
  rw [List.mem_append, or_iff_right]
  intro hmem
  have hnone := List.filterMap_eq_nil_iff.mp hbuilt _ hmem
  cases hnone

namespace Guarded

theorem start : Guarded {} where
  unkept := fun _ _ _ h => by cases h
  sole := fun _ _ _ _ _ h => by cases h
  pending := fun _ _ _ h => by cases h
  settled := fun c _ h => by simp [Store.kept?, Store.child?] at h
  tracked := fun _ _ h => by cases h
  once := List.nodup_nil
  answered := fun _ _ _ h => by cases h

/-- The fragment of a child that has been taken has been built by the thread that has taken it, if
at all. -/
theorem taken_of_built {x : Option (Except LoadError SchemaId)} (h : s.Guarded)
    (hmine : (s.threads i).taken? = some (c, x)) (hbuilt : .built c result ∈ s.log) :
    x = some result := by
  rcases h.tracked c result hbuilt with hkept | ⟨j, hj⟩
  · rw [h.unkept i c x hmine] at hkept
    cases hkept
  · obtain rfl := h.sole i j c x _ hmine hj
    rw [hmine] at hj
    exact congrArg Prod.snd (Option.some.inj hj)

/-- Nothing changes while no child is taken or left and none keeps a new result. -/
theorem quiet (h : s.Guarded) (events : List Event)
    (hkept : ∀ c, s'.store.kept? c = s.store.kept? c)
    (htaken : ∀ j, (s'.threads j).taken? = (s.threads j).taken?) (hlog : s'.log = events ++ s.log)
    (hbuilt : events.filterMap Event.built? = [])
    (hanswered : ∀ i c result, .answered i c result ∈ events → s.store.kept? c = some result) :
    s'.Guarded := by
  constructor
  case once =>
    rw [hlog, List.filterMap_append, hbuilt]
    exact h.once
  case answered =>
    intro i c result hmem
    rw [hlog, List.mem_append] at hmem
    rw [hkept]
    exact hmem.elim (hanswered i c result) (h.answered i c result)
  all_goals simp only [hkept, htaken, hlog, built_mem_append hbuilt]
  · exact h.unkept
  · exact h.sole
  · exact h.pending
  · exact h.settled
  · exact h.tracked

theorem take (h : s.Guarded) (hasking : s.threads i = .asking c wish)
    (hunkept : s.store.kept? c = none) (hfree : ∀ j x, (s.threads j).taken? ≠ some (c, x)) :
    (s.put i (.building c wish)).Guarded := by
  have hidle : (s.threads i).taken? = none := by rw [hasking]; rfl
  constructor
  case settled => exact h.settled
  case once => exact h.once
  case answered => exact h.answered
  all_goals simp only [taken?_put]
  case unkept =>
    intro j c' x hj
    split at hj
    · cases hj
      exact hunkept
    · exact h.unkept j c' x hj
  case sole =>
    intro j k c' x y hj hk
    split at hj <;> split at hk
    next hj' hk' => rw [hj', hk']
    next =>
      cases hj
      exact absurd hk (hfree k y)
    next =>
      cases hk
      exact absurd hj (hfree j x)
    next => exact h.sole j k c' x y hj hk
  case pending =>
    intro j c' result hj
    split at hj
    · cases hj
    · exact h.pending j c' result hj
  case tracked =>
    intro c' result hmem
    refine (h.tracked c' result hmem).imp_right fun ⟨j, hj⟩ => ⟨j, ?_⟩
    split
    next heq =>
      rw [heq, hidle] at hj
      cases hj
    next => exact hj

/-- The thread that has taken a child builds it, which nobody has done before. -/
theorem build (h : s.Guarded) (hbuilding : s.threads i = .building c wish)
    (happends : s.store.Appends store') (result : Except LoadError SchemaId) :
    State.Guarded { s.put i (.keeping c wish result) with
      store := store', log := .built c result :: s.log } := by
  have hmine : (s.threads i).taken? = some (c, none) := by rw [hbuilding]; rfl
  have hkept : ∀ c, store'.kept? c = s.store.kept? c := happends.kept?_eq
  have hfirst : c ∉ s.log.filterMap Event.built? := by
    intro hmem
    obtain ⟨event, hevent, hbuilt⟩ := List.mem_filterMap.mp hmem
    cases event with
    | built c' result' =>
        cases hbuilt
        cases h.taken_of_built hmine hevent
    | _ => cases hbuilt
  constructor
  case once => exact List.nodup_cons.mpr ⟨hfirst, h.once⟩
  case answered =>
    intro j c' result' hmem
    rw [hkept]
    rcases List.mem_cons.mp hmem with heq | hmem
    · cases heq
    · exact h.answered j c' result' hmem
  case settled =>
    intro c' result' hc'
    rw [hkept] at hc'
    exact List.mem_cons_of_mem _ (h.settled c' result' hc')
  all_goals simp only [taken?_put, hkept]
  case unkept =>
    intro j c' x hj
    split at hj
    · cases hj
      exact h.unkept i c none hmine
    · exact h.unkept j c' x hj
  case sole =>
    intro j k c' x y hj hk
    split at hj <;> split at hk
    next hj' hk' => rw [hj', hk']
    next hj' _ =>
      cases hj
      rw [hj']
      exact h.sole i k c _ y hmine hk
    next _ hk' =>
      cases hk
      rw [hk']
      exact h.sole j i c x _ hj hmine
    next => exact h.sole j k c' x y hj hk
  case pending =>
    intro j c' result' hj
    split at hj
    · cases hj
      exact List.mem_cons_self
    · exact List.mem_cons_of_mem _ (h.pending j c' result' hj)
  case tracked =>
    intro c' result' hmem
    rcases List.mem_cons.mp hmem with heq | hmem
    · cases heq
      exact Or.inr ⟨i, if_pos rfl⟩
    · refine (h.tracked c' result' hmem).imp_right fun ⟨j, hj⟩ => ⟨j, ?_⟩
      split
      next heq =>
        rw [heq, hmine] at hj
        cases hj
      next => exact hj

/-- A child keeps the result of the thread that has taken it. -/
theorem keep (h : s.Guarded) (hkeeping : s.threads i = .keeping c wish result)
    (hshown : s.store.fragment? c = some g) :
    State.Guarded { s.put i (wish.next c result) with
      store := s.store.kept c g.value result, log := wish.events i c result ++ s.log } := by
  have hmine : (s.threads i).taken? = some (c, some result) := by rw [hkeeping]; rfl
  have hnew : ∀ other, (s.store.kept c g.value result).kept? other =
      if other = c then some result else s.store.kept? other := Store.kept?_kept hshown
  have hbuilt := built?_events wish i c result
  constructor
  case once =>
    rw [List.filterMap_append, hbuilt]
    exact h.once
  case answered =>
    intro j c' result' hmem
    rw [hnew]
    rcases List.mem_append.mp hmem with hmem | hmem
    · rcases mem_events hmem with heq | ⟨_, _, _, heq⟩
      · cases heq
        exact if_pos rfl
      · cases heq
    · have hold := h.answered j c' result' hmem
      by_cases hc' : c' = c
      · subst hc'
        rw [h.unkept i c' _ hmine] at hold
        cases hold
      · rw [if_neg hc', hold]
  all_goals simp only [taken?_put, taken?_next, hnew, built_mem_append hbuilt]
  case unkept =>
    intro j c' x hj
    split at hj
    · cases hj
    next hne =>
      have hc' : c' ≠ c := by
        rintro rfl
        exact hne (h.sole j i c' x _ hj hmine)
      rw [if_neg hc']
      exact h.unkept j c' x hj
  case sole =>
    intro j k c' x y hj hk
    split at hj
    · cases hj
    · split at hk
      · cases hk
      · exact h.sole j k c' x y hj hk
  case pending =>
    intro j c' result' hj
    split at hj
    · cases hj
    · exact h.pending j c' result' hj
  case settled =>
    intro c' result' hc'
    split at hc'
    next heq =>
      cases hc'
      rw [heq]
      exact h.pending i c result hmine
    next => exact h.settled c' result' hc'
  case tracked =>
    intro c' result' hmem
    by_cases hc' : c' = c
    · subst hc'
      cases h.taken_of_built hmine hmem
      exact Or.inl (if_pos rfl)
    · rw [if_neg hc']
      refine (h.tracked c' result' hmem).imp_right fun ⟨j, hj⟩ => ⟨j, ?_⟩
      split
      next heq =>
        rw [heq, hmine] at hj
        cases hj
        exact absurd rfl hc'
      next => exact hj

theorem moves (h : s.Guarded) (hmoves : Moves v i s s') : s'.Guarded := by
  cases hmoves with
  | @load schema idle accepted =>
      exact h.quiet [_] (Store.add_spec schema s.store trivial).1.kept?_eq (fun _ => rfl) rfl rfl
        (by simp)
  | ask idle given sees wish =>
      exact h.quiet [] (fun _ => rfl) (taken?_put_of_eq (by rw [idle]; rfl)) rfl rfl nofun
  | @find c wish result asking kept =>
      refine h.quiet _ (fun _ => rfl) (taken?_put_of_eq ?_) rfl (built?_events wish i c result) ?_
      · rw [asking, taken?_next]
        rfl
      · intro j c' result' hmem
        rcases mem_events hmem with heq | ⟨_, _, _, heq⟩
        · cases heq
          exact kept
        · cases heq
  | take asking unkept free => exact h.take asking unkept free
  | build building shown => exact h.build building (Store.build_appends _ _) _
  | keep keeping shown => exact h.keep keeping shown
  | look idle given limit =>
      exact h.quiet [] (fun _ => rfl) (taken?_put_of_eq (by rw [idle]; rfl)) rfl rfl nofun
  | @view child? id limit _ result viewing assembled =>
      refine h.quiet [viewEvent i id limit result child?] (fun _ => rfl) (taken?_put_of_eq ?_) rfl
        ?_ ?_
      · rw [viewing]
        rfl
      · rw [List.filterMap_cons_none (built?_viewEvent i id limit result child?),
          List.filterMap_nil]
      · intro j c result' hmem
        rw [List.mem_singleton] at hmem
        cases child? <;> cases hmem
  | panic viewing panics =>
      exact h.quiet [] (fun _ => rfl) (taken?_put_of_eq (by rw [viewing]; rfl)) rfl rfl nofun
  | elsewhere appends =>
      exact h.quiet [] appends.kept?_eq (fun _ => rfl) rfl rfl nofun

end Guarded

end State
end Sharing
end ApiSchema
