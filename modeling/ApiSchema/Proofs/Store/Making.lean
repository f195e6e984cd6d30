import ApiSchema.Proofs.Source.Parts
import ApiSchema.Proofs.Source.Provenance
import ApiSchema.Proofs.Store.Keeping

/-!
The stores that can come about.

Schemas and children are loaded from documents or made by hand from what is there already, and
children are asked for their schemas. So nothing in a store is made from anything younger than
itself: the nested schemas of a schema are older than the schema, and the schema behind a child is
older than the child unless it was built later on demand.
-/

namespace ApiSchema

open Source (Schema Fragment Element Entry load)

namespace Store

variable {store store' : Store} {id : SchemaId} {c : ChildId} {s : Schema ChildId}
  {f : Fragment} {cell : Cell}

def Has (store : Store) (c : ChildId) : Prop :=
  ∃ child, store.child? c = some child

theorem Has.grows (h : store.Has c) (hgrows : store.Grows store') : store'.Has c := by
  obtain ⟨child, hc⟩ := h
  obtain ⟨child', hc', _⟩ := hgrows.children c child hc
  exact ⟨child', hc'⟩

theorem has_of_fragment? (h : store.fragment? c = some f) : store.Has c := by
  obtain ⟨child, hc, _⟩ := Option.bind_eq_some_iff.mp h
  exact ⟨child, hc⟩

/-- The stores that come about. -/
inductive Made : Store → Prop
  | empty : Made {}
  /-- A schema is made by hand. Its children are there, its numbers are arbitrary. -/
  | schema {store : Store} (before : Made store) {s : Schema ChildId}
      (children : ∀ c, s.Holds (.nested c) → store.Has c)
      (values : ∀ v, s.Holds (.value v) → v.Genuine) : Made (addSchema s store).2
  /-- A child is made by hand from a schema. -/
  | wrap {store : Store} (before : Made store) (id : SchemaId) (origin : Pointer)
      {s : Schema ChildId} (here : store.schema? id = some s) :
      Made (addChild ⟨origin, .built id⟩ store).2
  /-- A deferred child is made by hand. -/
  | defer {store : Store} (before : Made store) {f : Fragment} (genuine : f.value.Genuine) :
      Made (addFragment f store).2
  /-- A document is loaded. -/
  | load {store : Store} (before : Made store) {p : Pointer} {v : Json} {s : Schema Fragment}
      (genuine : v.Genuine) (accepted : Source.load p v = .ok s) : Made (add s store).2
  /-- A child is asked for its schema. -/
  | ask {store : Store} (before : Made store) (c : ChildId) : Made (schemaOf c store).2

/-- What stands at an address is made from older things, and its values can be there. -/
def Fits (store : Store) (address : Nat) : Cell → Prop
  | .schema s => (∀ c, s.Holds (.nested c) → store.Has c ∧ c.address < address) ∧
    ∀ v, s.Holds (.value v) → v.Genuine
  | .child ⟨_, .built id⟩ => (∃ s, store.schema? id = some s) ∧ id.address < address
  | .child ⟨_, .deferred fragment _⟩ => fragment.Genuine

/-- Everything in a store is made from older things. -/
def Orderly (store : Store) : Prop :=
  ∀ i cell, store.cells[i]? = some cell → store.Fits i cell

theorem Fits.grows {i : Nat} (h : store.Fits i cell) (hgrows : store.Grows store') :
    store'.Fits i cell := by
  match cell with
  | .schema s =>
      refine ⟨fun c hc => ?_, h.2⟩
      obtain ⟨hhas, hold⟩ := h.1 c hc
      exact ⟨hhas.grows hgrows, hold⟩
  | .child ⟨_, .built id⟩ =>
      obtain ⟨⟨s, hs⟩, hold⟩ := h
      exact ⟨⟨s, hgrows.schemas id s hs⟩, hold⟩
  | .child ⟨_, .deferred fragment _⟩ => exact h

theorem cell_of_schema? (h : store.schema? id = some s) :
    store.cells[id.address]? = some (.schema s) := by
  unfold schema? at h
  split at h
  next hcell => rw [hcell, Option.some.inj h]
  next => cases h

theorem Has.address_lt (h : store.Has c) : c.address < store.cells.size := by
  obtain ⟨child, hc⟩ := h
  exact (Array.getElem?_eq_some_iff.mp (cell_of_child? hc)).1

theorem schema?_lt (h : store.schema? id = some s) : id.address < store.cells.size :=
  (Array.getElem?_eq_some_iff.mp (cell_of_schema? h)).1

namespace Orderly

/-- The children of a schema are older than the schema. -/
theorem child (h : store.Orderly) (hs : store.schema? id = some s) (hc : s.Holds (.nested c)) :
    store.Has c ∧ c.address < id.address :=
  (h _ _ (cell_of_schema? hs)).1 c hc

theorem value (h : store.Orderly) (hs : store.schema? id = some s) {v : Json}
    (hv : s.Holds (.value v)) : v.Genuine :=
  (h _ _ (cell_of_schema? hs)).2 v hv

/-- The schema from which a child was made is older than the child. -/
theorem built (h : store.Orderly) {origin : Pointer}
    (hc : store.child? c = some ⟨origin, .built id⟩) :
    (∃ s, store.schema? id = some s) ∧ id.address < c.address :=
  h _ _ (cell_of_child? hc)

theorem fragment (h : store.Orderly) (hf : store.fragment? c = some f) : f.value.Genuine := by
  obtain ⟨⟨origin, content⟩, hc, hshown⟩ := Option.bind_eq_some_iff.mp hf
  cases content with
  | built id => cases hshown
  | deferred fragment result =>
      cases hshown
      exact h _ _ (cell_of_child? hc)

theorem push (h : store.Orderly) (hfresh : ∀ c, cell = .child c → c.Fresh)
    (hfits : store.Fits store.cells.size cell) :
    Orderly { store with cells := store.cells.push cell } := by
  intro i old hold
  have hgrows := (appends_push store cell hfresh).grows
  rw [Array.getElem?_push] at hold
  split at hold
  next hi =>
    cases hold
    exact hi ▸ hfits.grows hgrows
  next => exact (h i old hold).grows hgrows

theorem addChild (h : store.Orderly) {child : Child} (hfresh : child.Fresh)
    (hfits : store.Fits store.cells.size (.child child)) :
    (Store.addChild child store).2.Orderly :=
  h.push (fun _ hchild => Cell.child.inj hchild ▸ hfresh) hfits

/-- That a deferred child gets its result changes nothing about what is made from what. -/
theorem kept (h : store.Orderly) (hfragment : store.fragment? c = some f)
    (hkept : store.kept? c = none) {result : Except LoadError SchemaId}
    (hsettles : store.Settles f result) : (store.kept c f.value result).Orderly := by
  intro i cell hcell
  rw [cell_kept (unbuilt_of_kept? hfragment hkept)] at hcell
  split at hcell
  next =>
    cases hcell
    exact h.fragment hfragment
  next => exact (h i cell hcell).grows (grows_kept_fragment hfragment hkept hsettles)

end Orderly

namespace Ensures

variable {α β : Type} {pre inv : Store → Prop} {x : StateM Store α} {post post' : α → Store → Prop}

theorem both (h : Ensures pre x post) (h' : Ensures pre x post') :
    Ensures pre x fun a store => post a store ∧ post' a store :=
  fun store hpre => ⟨(h store hpre).1, (h store hpre).2, (h' store hpre).2⟩

theorem always {pre : Store → Prop} (h : Ensures (fun _ => True) x post) : Ensures pre x post :=
  fun store _ => h store trivial

/-- Acting on every item of a list keeps what acting on each of them keeps. -/
theorem mapM_keeps {act : α → StateM Store β} {xs : List α}
    (hact : ∀ a ∈ xs, Ensures inv (act a) fun _ => inv) :
    Ensures inv (xs.mapM act) fun _ => inv := by
  induction xs with
  | nil => exact Ensures.pure fun _ h => h
  | cons a xs ih =>
      obtain ⟨ha, hxs⟩ := List.forall_mem_cons.mp hact
      rw [List.mapM_cons]
      refine Ensures.bind ha fun b => Ensures.bind (ih hxs) fun bs => ?_
      exact Ensures.pure fun _ h => h

end Ensures

section Traverse

variable {inv : Store → Prop} {act : Fragment → StateM Store ChildId}

theorem traverseElements_keeps {field : Option (Source.Field (List (Element Fragment)))}
    (hact : ∀ x ∈ field, ∀ e ∈ x.value, Ensures inv (act e.value) fun _ => inv) :
    Ensures inv (Schema.traverseElements act field) fun _ => inv := by
  cases field with
  | none => exact Ensures.pure fun _ h => h
  | some x =>
      refine Ensures.bind (Ensures.mapM_keeps fun e he => ?_) fun _ => Ensures.pure fun _ h => h
      exact Ensures.bind (hact x rfl e he) fun _ => Ensures.pure fun _ h => h

theorem traverseEntries_keeps {field : Option (Source.Field (List (Entry Fragment)))}
    (hact : ∀ x ∈ field, ∀ e ∈ x.value, Ensures inv (act e.value) fun _ => inv) :
    Ensures inv (Schema.traverseEntries act field) fun _ => inv := by
  cases field with
  | none => exact Ensures.pure fun _ h => h
  | some x =>
      refine Ensures.bind (Ensures.mapM_keeps fun e he => ?_) fun _ => Ensures.pure fun _ h => h
      exact Ensures.bind (hact x rfl e he) fun _ => Ensures.pure fun _ h => h

/-- Acting on every nested schema keeps what acting on each of them keeps. -/
theorem traverse_keeps {s : Schema Fragment}
    (hact : ∀ g, s.Holds (.nested g) → Ensures inv (act g) fun _ => inv) :
    Ensures inv (s.traverse act) fun _ => inv := by
  have helements : ∀ a : Applicator, ∀ x ∈ s.applied a, ∀ e ∈ x.value,
      Ensures inv (act e.value) fun _ => inv :=
    fun a x hx e he => hact e.value (Schema.holds_applied hx he)
  have hentries : ∀ x ∈ s.properties, ∀ e ∈ x.value, Ensures inv (act e.value) fun _ => inv :=
    fun x hx e he => hact e.value (Schema.holds_property hx he)
  refine Ensures.bind (traverseElements_keeps (helements .allOf)) fun _ => ?_
  refine Ensures.bind (traverseElements_keeps (helements .oneOf)) fun _ => ?_
  refine Ensures.bind (traverseElements_keeps (helements .anyOf)) fun _ => ?_
  refine Ensures.bind (traverseElements_keeps (helements .not)) fun _ => ?_
  refine Ensures.bind (traverseElements_keeps (helements .items)) fun _ => ?_
  refine Ensures.bind (traverseEntries_keeps hentries) fun _ => ?_
  exact Ensures.pure fun _ h => h

end Traverse

theorem addFragment_orderly (hf : f.value.Genuine) :
    Ensures Orderly (addFragment f) fun _ => Orderly :=
  fun store h => ⟨(addFragment_spec f store trivial).1, h.addChild nofun hf⟩

/-- A loaded schema of genuine values is put into a store after all its children. -/
theorem add_orderly {s : Schema Fragment} (hs : s.Proper fun f => f.value.Genuine) :
    Ensures Orderly (add s) fun _ => Orderly := by
  have htraverse : Ensures Orderly (s.traverse addFragment) fun t store =>
      store.Orderly ∧ t.map store.fragment? = s.map some :=
    (traverse_keeps fun g hg => addFragment_orderly (hs (.nested g) hg)).both
      (traverse_spec s).always
  refine Ensures.bind htraverse fun t store ⟨horderly, hmap⟩ => ?_
  have hfits : store.Fits store.cells.size (.schema t) := by
    refine ⟨fun c hc => ?_, fun v hv => ?_⟩
    · obtain ⟨part, _, heq⟩ := Schema.holds_of_map_eq hmap hc
      cases part with
      | nested g =>
          have hhas := has_of_fragment? (Source.Part.nested.inj heq).symm
          exact ⟨hhas, hhas.address_lt⟩
      | number x => cases heq
      | value v => cases heq
    · obtain ⟨part, hpart, heq⟩ := Schema.holds_of_map_eq hmap hv
      cases part with
      | nested g => cases heq
      | number x => cases heq
      | value w => exact Source.Part.value.inj heq ▸ hs _ hpart
  exact ⟨appends_push store _ nofun, horderly.push nofun hfits⟩

theorem build_orderly (h : store.Orderly) (hf : f.value.Genuine) :
    (build f store).2.Orderly := by
  unfold build
  split
  · exact h
  next s hbuild =>
    exact (add_orderly (Source.proper_of_load (Source.load_of_build hbuild) hf) store h).2

/-- Asking a child for its schema leaves a store orderly. -/
theorem Orderly.schemaOf (h : store.Orderly) (c : ChildId) : (schemaOf c store).2.Orderly := by
  cases hc : store.child? c with
  | none =>
      rw [schemaOf_missing hc]
      exact h
  | some child =>
      cases hcontent : child.content with
      | built schema =>
          rw [schemaOf_built (by rw [child_of_child? hc, hcontent])]
          exact h
      | deferred fragment result =>
          have hshown : store.fragment? c = some ⟨child.origin, fragment⟩ := by
            rw [fragment?, hc, Option.bind_some, Child.fragment?, hcontent]
          cases hkept : store.kept? c with
          | some result =>
              rw [schemaOf_of_kept? hkept]
              exact h
          | none =>
              rw [schemaOf_of_unkept hshown hkept]
              have happends := build_appends ⟨child.origin, fragment⟩ store
              exact (build_orderly h (h.fragment hshown)).kept
                (happends.grows.fragment? hshown) ((happends.kept?_eq c).trans hkept)
                (build_settles _ store)

theorem orderly_empty : Orderly {} := by
  intro i cell hcell
  simp at hcell

/-- Whatever comes about is orderly. -/
theorem Made.orderly (h : store.Made) : store.Orderly := by
  induction h with
  | empty => exact orderly_empty
  | @schema store _ s children values ih =>
      exact ih.push nofun ⟨fun c hc => ⟨children c hc, (children c hc).address_lt⟩, values⟩
  | @wrap store _ id origin s here ih =>
      exact ih.addChild nofun ⟨⟨s, here⟩, schema?_lt here⟩
  | @defer store _ f genuine ih => exact (addFragment_orderly genuine store ih).2
  | @load store _ p v s genuine accepted ih =>
      exact (add_orderly (Source.proper_of_load accepted genuine) store ih).2
  | @ask store _ c ih => exact ih.schemaOf c

/-- Children of whatever comes about keep right results. -/
theorem Made.sound (h : store.Made) : store.Sound := by
  induction h with
  | empty => exact sound_empty
  | @schema store _ s _ _ ih => exact (addSchema_spec s store trivial).1.grows.sound ih
  | @wrap store _ id origin s here ih =>
      have hfresh : Child.Fresh ⟨origin, .built id⟩ := nofun
      exact (addChild_spec hfresh store trivial).1.grows.sound ih
  | @defer store _ f _ ih => exact (addFragment_spec f store trivial).1.grows.sound ih
  | @load store _ p v s _ _ ih => exact (add_spec s store trivial).1.grows.sound ih
  | @ask store _ c ih => exact (schemaOf_grows c store).sound ih

end Store
end ApiSchema
