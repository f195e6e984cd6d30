import ApiSchema.Proofs.Source.Children
import ApiSchema.Store.Basic

/-!
A store only grows.

Nothing that is done to a store takes a schema or a child away or changes it, except that a child
that has not been built gets its result, and the result is that of building its fragment. So what a
stored schema shows through its children, which is the schema it was stored for, it shows ever
after.
-/

namespace ApiSchema

open Source (Schema Fragment Element Entry)

namespace Child

/-- A child stays the same, or it gets a result that it did not have. -/
inductive Becomes (c : Child) : Child → Prop
  | same : Becomes c c
  | built {fragment : Json} (unbuilt : c.content = .deferred fragment none)
      (result : Except LoadError SchemaId) :
      Becomes c ⟨c.origin, .deferred fragment (some result)⟩

theorem Becomes.trans {c c' c'' : Child} (h : c.Becomes c') (h' : c'.Becomes c'') :
    c.Becomes c'' := by
  cases h with
  | same => exact h'
  | built unbuilt result =>
      cases h' with
      | same => exact .built unbuilt result
      | built unbuilt' result' => cases unbuilt'

theorem Becomes.fragment?_eq {c c' : Child} (h : c.Becomes c') : c'.fragment? = c.fragment? := by
  cases h with
  | same => rfl
  | built unbuilt result => simp only [fragment?, unbuilt]

/-- A child that keeps no result. -/
def Fresh (c : Child) : Prop :=
  ∀ fragment result, c.content ≠ .deferred fragment (some result)

end Child

namespace Store

variable {store store' store'' : Store} {id : SchemaId} {s : Schema Fragment}

def fragment? (store : Store) (id : ChildId) : Option Fragment :=
  (store.child? id).bind Child.fragment?

/-- A stored schema shows another if its children show the nested schemas of that. -/
def Shows (store : Store) (id : SchemaId) (s : Schema Fragment) : Prop :=
  ∃ t, store.schema? id = some t ∧ t.map store.fragment? = s.map some

/-- A result of building a fragment is the right one. -/
def Settles (store : Store) (fragment : Fragment) : Except LoadError SchemaId → Prop
  | .error e => fragment.build = .error e
  | .ok id => ∃ s, fragment.build = .ok s ∧ store.Shows id s

/-- The result that a child keeps, if it keeps one, is the right one. -/
def Honest (store : Store) (c : Child) : Prop :=
  ∀ fragment result, c.content = .deferred fragment (some result) →
    store.Settles ⟨c.origin, fragment⟩ result

/-- All children keep right results. -/
def Sound (store : Store) : Prop :=
  ∀ id c, store.child? id = some c → store.Honest c

theorem sound_empty : Sound {} := by
  intro id c hc
  simp [child?] at hc

/-- A store with more cells, in which new children keep no results. -/
structure Appends (store store' : Store) : Prop where
  schemas : ∀ id s, store.schema? id = some s → store'.schema? id = some s
  children : ∀ id c, store.child? id = some c → store'.child? id = some c
  fresh : ∀ id c, store'.child? id = some c → store.child? id = some c ∨ c.Fresh

/-- A later state of a store. -/
structure Grows (store store' : Store) : Prop where
  schemas : ∀ id s, store.schema? id = some s → store'.schema? id = some s
  children : ∀ id c, store.child? id = some c → ∃ c', store'.child? id = some c' ∧ c.Becomes c'
  honest : ∀ id c, store'.child? id = some c → store.child? id = some c ∨ store'.Honest c

theorem Appends.grows (h : store.Appends store') : store.Grows store' := by
  refine ⟨h.schemas, fun id c hc => ⟨c, h.children id c hc, .same⟩, fun id c hc => ?_⟩
  exact (h.fresh id c hc).imp_right fun hfresh fragment result hresult =>
    absurd hresult (hfresh fragment result)

theorem Appends.refl (store : Store) : store.Appends store :=
  ⟨fun _ _ => id, fun _ _ => id, fun _ _ => Or.inl⟩

theorem Appends.trans (h : store.Appends store') (h' : store'.Appends store'') :
    store.Appends store'' := by
  refine ⟨fun id s hs => h'.schemas id s (h.schemas id s hs),
    fun id c hc => h'.children id c (h.children id c hc), fun id c hc => ?_⟩
  rcases h'.fresh id c hc with hc | hfresh
  · exact h.fresh id c hc
  · exact Or.inr hfresh

namespace Grows

theorem refl (store : Store) : store.Grows store :=
  (Appends.refl store).grows

theorem fragment? (h : store.Grows store') {id : ChildId} {fragment : Fragment}
    (hfragment : store.fragment? id = some fragment) : store'.fragment? id = some fragment := by
  obtain ⟨c, hc, hshown⟩ := Option.bind_eq_some_iff.mp hfragment
  obtain ⟨c', hc', hbecomes⟩ := h.children id c hc
  exact Option.bind_eq_some_iff.mpr ⟨c', hc', hbecomes.fragment?_eq.trans hshown⟩

theorem shows (h : store.Grows store') (hshows : store.Shows id s) : store'.Shows id s := by
  obtain ⟨t, ht, hmap⟩ := hshows
  exact ⟨t, h.schemas id t ht, Schema.map_eq_of_finds (fun _ _ => h.fragment?) hmap⟩

theorem settles (h : store.Grows store') {fragment : Fragment}
    {result : Except LoadError SchemaId} (hsettles : store.Settles fragment result) :
    store'.Settles fragment result := by
  cases result with
  | error e => exact hsettles
  | ok id =>
      obtain ⟨s, hbuild, hshows⟩ := hsettles
      exact ⟨s, hbuild, h.shows hshows⟩

theorem trans (h : store.Grows store') (h' : store'.Grows store'') : store.Grows store'' := by
  refine ⟨fun id s hs => h'.schemas id s (h.schemas id s hs), fun id c hc => ?_, fun id c hc => ?_⟩
  · obtain ⟨c', hc', hbecomes⟩ := h.children id c hc
    obtain ⟨c'', hc'', hbecomes'⟩ := h'.children id c' hc'
    exact ⟨c'', hc'', hbecomes.trans hbecomes'⟩
  · rcases h'.honest id c hc with hc | hhonest
    · exact (h.honest id c hc).imp_right fun hhonest fragment result hresult =>
        h'.settles (hhonest fragment result hresult)
    · exact Or.inr hhonest

/-- Later states of a sound store are sound. -/
theorem sound (h : store.Grows store') (hsound : store.Sound) : store'.Sound := by
  intro id c hc
  rcases h.honest id c hc with hc | hhonest
  · exact fun fragment result hresult => h.settles (hsound id c hc fragment result hresult)
  · exact hhonest

end Grows

/-- From a store with the precondition, a computation appends to the store, and its result has the
postcondition there. -/
def Ensures {α : Type} (pre : Store → Prop) (x : StateM Store α) (post : α → Store → Prop) : Prop :=
  ∀ store, pre store → store.Appends (x store).2 ∧ post (x store).1 (x store).2

/-- A property of stores that later states keep. -/
def Stable (p : Store → Prop) : Prop :=
  ∀ store store', store.Grows store' → p store → p store'

theorem Stable.and {p q : Store → Prop} (hp : Stable p) (hq : Stable q) :
    Stable fun store => p store ∧ q store :=
  fun store store' hgrows h => ⟨hp store store' hgrows h.1, hq store store' hgrows h.2⟩

namespace Ensures

variable {α β γ : Type} {pre inv : Store → Prop} {x : StateM Store α} {post : α → Store → Prop}

theorem pure {a : α} (h : ∀ store, pre store → post a store) :
    Ensures pre (Pure.pure a : StateM Store α) post :=
  fun store hpre => ⟨.refl store, h store hpre⟩

theorem bind {f : α → StateM Store β} {post' : β → Store → Prop} (h : Ensures pre x post)
    (h' : ∀ a, Ensures (post a) (f a) post') : Ensures pre (x >>= f) post' := by
  intro store hpre
  obtain ⟨happends, hpost⟩ := h store hpre
  obtain ⟨happends', hpost'⟩ := h' _ _ hpost
  exact ⟨happends.trans happends', hpost'⟩

/-- What later states keep, a computation keeps. -/
theorem frame (h : Ensures (fun _ => True) x post) (hinv : Stable inv) :
    Ensures inv x (fun a store => inv store ∧ post a store) := by
  intro store hpre
  obtain ⟨happends, hpost⟩ := h store trivial
  exact ⟨happends, hinv _ _ happends.grows hpre, hpost⟩

/-- Acting on every item of a list, if what is made of an item shows the item ever after. -/
theorem mapM {act : α → StateM Store β} {shown : Store → β → γ} {back : α → γ}
    (hshown : ∀ a b, Stable fun store => shown store b = back a)
    (hact : ∀ a, Ensures (fun _ => True) (act a) fun b store => shown store b = back a)
    (xs : List α) : Ensures (fun _ => True) (xs.mapM act) fun ys store =>
      ys.map (shown store) = xs.map back := by
  induction xs with
  | nil => exact Ensures.pure fun _ _ => rfl
  | cons x xs ih =>
      rw [List.mapM_cons]
      refine Ensures.bind (hact x) fun b => ?_
      refine Ensures.bind (ih.frame (hshown x b)) fun ys => ?_
      exact Ensures.pure fun store h => by rw [List.map_cons, List.map_cons, h.1, h.2]

/-- Acting on every item of the list in a field. -/
theorem mapField {act : α → StateM Store β} {shown : Store → β → γ} {back : α → γ}
    (hshown : ∀ a b, Stable fun store => shown store b = back a)
    (hact : ∀ a, Ensures (fun _ => True) (act a) fun b store => shown store b = back a)
    (field : Source.Field (List α)) :
    Ensures (fun _ => True)
      (do
        let items ← field.value.mapM act
        return some (Source.Field.mk items field.keyAt field.valueAt))
      fun field' store => field'.map (Source.Field.map (List.map (shown store))) =
        some (field.map (List.map back)) := by
  refine Ensures.bind (Ensures.mapM hshown hact field.value) fun items => ?_
  exact Ensures.pure fun store h =>
    congrArg (fun xs => some (Source.Field.mk xs field.keyAt field.valueAt)) h

end Ensures

/-- A new cell leaves the cells before as they are. -/
theorem appends_push (store : Store) (cell : Cell)
    (hfresh : ∀ c, cell = .child c → c.Fresh) :
    store.Appends { store with cells := store.cells.push cell } := by
  have hold : ∀ (i : Nat) (old : Cell), store.cells[i]? = some old →
      (store.cells.push cell)[i]? = some old := by
    intro i old hi
    rw [Array.getElem?_push_lt (Array.getElem?_eq_some_iff.mp hi).1]
    exact congrArg some (Array.getElem?_eq_some_iff.mp hi).2
  refine ⟨fun id s hs => ?_, fun id c hc => ?_, fun id c hc => ?_⟩
  · unfold schema? at hs ⊢
    split at hs
    next t hcell => rw [hold _ _ hcell]; exact hs
    next => cases hs
  · unfold child? at hc ⊢
    split at hc
    next t hcell => rw [hold _ _ hcell]; exact hc
    next => cases hc
  · unfold child? at hc ⊢
    split at hc
    next t hcell =>
      cases hc
      rw [Array.getElem?_push] at hcell
      split at hcell
      · exact Or.inr (hfresh c (Option.some.inj hcell))
      · rw [hcell]
        exact Or.inl rfl
    next => cases hc

theorem addSchema_spec (t : Schema ChildId) :
    Ensures (fun _ => True) (addSchema t) fun id store => store.schema? id = some t :=
  fun store _ => ⟨appends_push store _ nofun, by simp [addSchema, schema?]⟩

theorem addChild_spec {c : Child} (hfresh : c.Fresh) :
    Ensures (fun _ => True) (addChild c) fun id store => store.child? id = some c :=
  fun store _ => ⟨appends_push store _ fun _ h => Cell.child.inj h ▸ hfresh,
    by simp [addChild, child?]⟩

/-- A deferred child shows the fragment it was added for. -/
theorem addFragment_spec (fragment : Fragment) :
    Ensures (fun _ => True) (addFragment fragment) fun id store =>
      store.fragment? id = some fragment := by
  intro store _
  have hfresh : Child.Fresh ⟨fragment.origin, .deferred fragment.value none⟩ := nofun
  obtain ⟨happends, hchild⟩ := addChild_spec hfresh store trivial
  exact ⟨happends, Option.bind_eq_some_iff.mpr ⟨_, hchild, rfl⟩⟩

theorem traverseElements_spec (field : Option (Source.Field (List (Element Fragment)))) :
    Ensures (fun _ => True) (Schema.traverseElements addFragment field) fun field' store =>
      Schema.mapElements store.fragment? field' = Schema.mapElements some field := by
  cases field with
  | none => exact Ensures.pure fun _ _ => rfl
  | some field =>
      refine Ensures.mapField (fun e e' _ _ hgrows => ?_) (fun e => ?_) field
      · exact Schema.element_eq_of_finds fun _ _ => hgrows.fragment?
      · refine Ensures.bind (addFragment_spec e.value) fun id => ?_
        exact Ensures.pure fun store hid => by rw [Element.map, hid]; rfl

theorem traverseEntries_spec (field : Option (Source.Field (List (Entry Fragment)))) :
    Ensures (fun _ => True) (Schema.traverseEntries addFragment field) fun field' store =>
      Schema.mapEntries store.fragment? field' = Schema.mapEntries some field := by
  cases field with
  | none => exact Ensures.pure fun _ _ => rfl
  | some field =>
      refine Ensures.mapField (fun e e' _ _ hgrows => ?_) (fun e => ?_) field
      · exact Schema.entry_eq_of_finds fun _ _ => hgrows.fragment?
      · refine Ensures.bind (addFragment_spec e.value) fun id => ?_
        exact Ensures.pure fun store hid => by rw [Entry.map, hid]; rfl

theorem mapElements_stable (field : Option (Source.Field (List (Element Fragment))))
    (field' : Option (Source.Field (List (Element ChildId)))) :
    Stable fun store => Schema.mapElements store.fragment? field' = Schema.mapElements some field :=
  fun _ _ hgrows => Schema.elements_eq_of_finds fun _ _ => hgrows.fragment?

/-- A child is added for every nested schema, and shows it. -/
theorem traverse_spec (s : Schema Fragment) :
    Ensures (fun _ => True) (s.traverse addFragment) fun t store =>
      t.map store.fragment? = s.map some := by
  refine Ensures.bind (traverseElements_spec s.allOf) fun allOf => ?_
  have hallOf := mapElements_stable s.allOf allOf
  refine Ensures.bind ((traverseElements_spec s.oneOf).frame hallOf) fun oneOf => ?_
  have honeOf := hallOf.and (mapElements_stable s.oneOf oneOf)
  refine Ensures.bind ((traverseElements_spec s.anyOf).frame honeOf) fun anyOf => ?_
  have hanyOf := honeOf.and (mapElements_stable s.anyOf anyOf)
  refine Ensures.bind ((traverseElements_spec s.not).frame hanyOf) fun not => ?_
  have hnot := hanyOf.and (mapElements_stable s.not not)
  refine Ensures.bind ((traverseElements_spec s.items).frame hnot) fun items => ?_
  have hitems := hnot.and (mapElements_stable s.items items)
  refine Ensures.bind ((traverseEntries_spec s.properties).frame hitems) fun properties => ?_
  refine Ensures.pure fun store h => ?_
  obtain ⟨⟨⟨⟨⟨hallOf, honeOf⟩, hanyOf⟩, hnot⟩, hitems⟩, hproperties⟩ := h
  simp only [Schema.map, hallOf, honeOf, hanyOf, hnot, hitems, hproperties]

/-- A loaded schema that is stored shows itself. -/
theorem add_spec (s : Schema Fragment) :
    Ensures (fun _ => True) (add s) fun id store => store.Shows id s := by
  refine Ensures.bind (traverse_spec s) fun t => ?_
  have hstable : Stable fun store => t.map store.fragment? = s.map some :=
    fun _ _ hgrows => Schema.map_eq_of_finds fun _ _ => hgrows.fragment?
  intro store h
  obtain ⟨happends, hmap, hschema⟩ := (addSchema_spec t).frame hstable store h
  exact ⟨happends, t, hschema, hmap⟩

end Store
end ApiSchema
