import ApiSchema.Proofs.Store.Growth

/-!
Asking a child for its schema.

A deferred child is built once, and what it is built to is kept. In a sound store a child answers,
at whatever time it is asked, with what building its fragment gives.
-/

namespace ApiSchema
namespace Store

open Source (Schema Fragment)

variable {store : Store} {id : ChildId} {c : Child} {fragment : Json}
  {result : Except LoadError SchemaId}

theorem child_of_child? (h : store.child? id = some c) : store.child id = c := by
  rw [child, h]
  rfl

theorem schema_of_schema? {schema : SchemaId} {t : Schema ChildId}
    (h : store.schema? schema = some t) : store.schema schema = t := by
  rw [Store.schema, h]
  rfl

/-- The store in which a child has its result. -/
def kept (store : Store) (id : ChildId) (fragment : Json) (result : Except LoadError SchemaId) :
    Store :=
  (setContent id (.deferred fragment (some result)) store).2

theorem cell_of_child? (h : store.child? id = some c) :
    store.cells[id.address]? = some (.child c) := by
  unfold child? at h
  split at h
  next hcell => rw [hcell, Option.some.inj h]
  next => cases h

theorem cell_kept (hc : store.child? id = some c) (i : Nat) :
    (store.kept id fragment result).cells[i]? =
      if i = id.address then some (.child ⟨c.origin, .deferred fragment (some result)⟩)
      else store.cells[i]? := by
  have hsize := (Array.getElem?_eq_some_iff.mp (cell_of_child? hc)).1
  simp only [kept, setContent, hc, Array.getElem?_setIfInBounds]
  by_cases hi : i = id.address
  · rw [if_pos hi, if_pos hi.symm, if_pos hsize]
  · rw [if_neg hi, if_neg (Ne.symm hi)]

theorem child?_kept (hc : store.child? id = some c) (other : ChildId) :
    (store.kept id fragment result).child? other =
      if other = id then some ⟨c.origin, .deferred fragment (some result)⟩
      else store.child? other := by
  simp only [child?, cell_kept hc]
  by_cases hother : other = id
  · rw [if_pos hother, if_pos (congrArg ChildId.address hother)]
  · have haddress : other.address ≠ id.address := by
      intro heq
      exact hother (ChildId.mk.injEq _ _ ▸ heq)
    rw [if_neg hother, if_neg haddress]

theorem schema?_kept (hc : store.child? id = some c) (other : SchemaId) :
    (store.kept id fragment result).schema? other = store.schema? other := by
  simp only [schema?, cell_kept hc]
  by_cases hother : other.address = id.address
  · rw [if_pos hother, hother, cell_of_child? hc]
  · rw [if_neg hother]

theorem fragment?_kept (hc : store.child? id = some c)
    (hunbuilt : c.content = .deferred fragment none) (other : ChildId) :
    (store.kept id fragment result).fragment? other = store.fragment? other := by
  rw [fragment?, fragment?, child?_kept hc]
  by_cases hother : other = id
  · rw [if_pos hother, hother, hc]
    simp only [Option.bind_some, Child.fragment?, hunbuilt]
  · rw [if_neg hother]

/-- Keeping the right result of a child that had none leads to a later state. -/
theorem grows_kept (hc : store.child? id = some c) (hunbuilt : c.content = .deferred fragment none)
    (hsettles : store.Settles ⟨c.origin, fragment⟩ result) :
    store.Grows (store.kept id fragment result) := by
  have hsettled : (store.kept id fragment result).Settles ⟨c.origin, fragment⟩ result := by
    cases result with
    | error e => exact hsettles
    | ok schema =>
        obtain ⟨s, hbuild, t, ht, hmap⟩ := hsettles
        refine ⟨s, hbuild, t, (schema?_kept hc schema).trans ht, ?_⟩
        rw [← hmap]
        exact congrArg t.map (funext (fragment?_kept hc hunbuilt))
  refine ⟨fun other s hs => (schema?_kept hc other).trans hs, fun other c' hc' => ?_,
    fun other c' hc' => ?_⟩
  · rw [child?_kept hc]
    by_cases hother : other = id
    · subst hother
      rw [hc] at hc'
      cases hc'
      exact ⟨_, if_pos rfl, .built hunbuilt result⟩
    · exact ⟨c', (if_neg hother).trans hc', .same⟩
  · rw [child?_kept hc] at hc'
    split at hc'
    · cases hc'
      refine Or.inr fun fragment' result' hresult => ?_
      cases hresult
      exact hsettled
    · exact Or.inl hc'

theorem schemaOf_built {schema : SchemaId} (h : (store.child id).content = .built schema) :
    schemaOf id store = (.ok schema, store) := by
  simp only [schemaOf, bind, StateT.bind, get, getThe, MonadStateOf.get, StateT.get, pure, h]
  rfl

theorem schemaOf_kept (h : (store.child id).content = .deferred fragment (some result)) :
    schemaOf id store = (result, store) := by
  simp only [schemaOf, bind, StateT.bind, get, getThe, MonadStateOf.get, StateT.get, pure, h]
  rfl

theorem schemaOf_error {e : LoadError} (h : (store.child id).content = .deferred fragment none)
    (hbuild : Fragment.build ⟨(store.child id).origin, fragment⟩ = .error e) :
    schemaOf id store = (.error e, store.kept id fragment (.error e)) := by
  simp only [schemaOf, bind, StateT.bind, get, getThe, MonadStateOf.get, StateT.get, pure, h,
    hbuild]
  rfl

theorem schemaOf_ok {s : Schema Fragment} (h : (store.child id).content = .deferred fragment none)
    (hbuild : Fragment.build ⟨(store.child id).origin, fragment⟩ = .ok s) :
    schemaOf id store =
      (.ok (add s store).1, (add s store).2.kept id fragment (.ok (add s store).1)) := by
  simp only [schemaOf, bind, StateT.bind, get, getThe, MonadStateOf.get, StateT.get, pure, h,
    hbuild]
  rfl

/-- A child without a result is built, and the result is kept. -/
theorem schemaOf_unbuilt (hc : store.child? id = some c)
    (hunbuilt : c.content = .deferred fragment none) :
    store.Grows (schemaOf id store).2 ∧
      (schemaOf id store).2.Settles ⟨c.origin, fragment⟩ (schemaOf id store).1 := by
  have hchild := child_of_child? hc
  have hcontent : (store.child id).content = .deferred fragment none := by rw [hchild, hunbuilt]
  cases hbuild : Fragment.build ⟨c.origin, fragment⟩ with
  | error e =>
      rw [schemaOf_error hcontent (by rw [hchild, hbuild])]
      exact ⟨grows_kept hc hunbuilt hbuild, hbuild⟩
  | ok s =>
      rw [schemaOf_ok hcontent (by rw [hchild, hbuild])]
      obtain ⟨happends, hshows⟩ := add_spec s store trivial
      have hsettles : (add s store).2.Settles ⟨c.origin, fragment⟩ (.ok (add s store).1) :=
        ⟨s, hbuild, hshows⟩
      have hgrows := grows_kept (happends.children id c hc) hunbuilt hsettles
      exact ⟨happends.grows.trans hgrows, hgrows.settles hsettles⟩

/-- Asking an address without a child leads nowhere. -/
theorem schemaOf_missing (hc : store.child? id = none) : (schemaOf id store).2 = store := by
  have hchild : store.child id = ⟨.root, .deferred .null none⟩ := by
    rw [child, hc]
    rfl
  have hcontent : (store.child id).content = .deferred .null none := by rw [hchild]
  have hbuild : Fragment.build ⟨(store.child id).origin, .null⟩ = .error (.notAnObject .root) := by
    rw [hchild]
    rfl
  rw [schemaOf_error hcontent hbuild]
  simp only [kept, setContent, hc]

/-- Whatever child is asked for its schema, the store moves on to a later state. -/
theorem schemaOf_grows (id : ChildId) (store : Store) : store.Grows (schemaOf id store).2 := by
  cases hc : store.child? id with
  | none =>
      rw [schemaOf_missing hc]
      exact .refl store
  | some c =>
      have hchild := child_of_child? hc
      cases hcontent : c.content with
      | built schema =>
          rw [schemaOf_built (by rw [hchild, hcontent])]
          exact .refl store
      | deferred fragment result =>
          cases result with
          | none => exact (schemaOf_unbuilt hc hcontent).1
          | some result =>
              rw [schemaOf_kept (by rw [hchild, hcontent])]
              exact .refl store

/-- A deferred child of a sound store answers with what building its fragment gives. -/
theorem schemaOf_settles {shown : Fragment} (hsound : store.Sound)
    (hshown : store.fragment? id = some shown) :
    (schemaOf id store).2.Settles shown (schemaOf id store).1 := by
  obtain ⟨c, hc, hshown⟩ := Option.bind_eq_some_iff.mp hshown
  have hchild := child_of_child? hc
  cases hcontent : c.content with
  | built schema =>
      simp only [Child.fragment?, hcontent] at hshown
      cases hshown
  | deferred fragment result =>
      simp only [Child.fragment?, hcontent] at hshown
      cases hshown
      cases result with
      | none => exact (schemaOf_unbuilt hc hcontent).2
      | some result =>
          rw [schemaOf_kept (by rw [hchild, hcontent])]
          exact hsound id c hc fragment result hcontent

end Store
end ApiSchema
