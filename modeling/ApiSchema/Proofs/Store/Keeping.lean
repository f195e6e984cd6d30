import ApiSchema.Proofs.Store.Building

/-!
What a child keeps.

To ask a child for its schema is to read what it keeps, or else to build its fragment and to have it
keep the result. Here the two halves are told apart, as they are when others can come in between.
-/

namespace ApiSchema

open Source (Schema Fragment)

/-- The result that a deferred child keeps. -/
def Child.kept? (c : Child) : Option (Except LoadError SchemaId) :=
  match c.content with
  | .built _ => none
  | .deferred _ result => result

theorem Child.Fresh.kept?_eq {c : Child} (h : c.Fresh) : c.kept? = none := by
  unfold kept?
  split
  next => rfl
  next fragment result hcontent =>
    cases result with
    | none => rfl
    | some result => exact absurd hcontent (h fragment result)

namespace Store

variable {store store' : Store} {id : SchemaId} {c : ChildId} {g : Fragment}
  {result : Except LoadError SchemaId}

def kept? (store : Store) (c : ChildId) : Option (Except LoadError SchemaId) :=
  (store.child? c).bind Child.kept?

/-- Builds a fragment and stores its schema. -/
def build (fragment : Fragment) (store : Store) : Except LoadError SchemaId × Store :=
  match fragment.build with
  | .error e => (.error e, store)
  | .ok s => (.ok (add s store).1, (add s store).2)

/-- New cells change nothing about what children keep. -/
theorem Appends.kept?_eq (h : store.Appends store') (c : ChildId) :
    store'.kept? c = store.kept? c := by
  unfold kept?
  cases hc : store.child? c with
  | some child => rw [h.children c child hc]
  | none =>
      cases hc' : store'.child? c with
      | none => rfl
      | some child =>
          rcases h.fresh c child hc' with hold | hfresh
          · cases hc.symm.trans hold
          · exact hfresh.kept?_eq

/-- A child that shows a fragment and keeps no result has not been built. -/
theorem unbuilt_of_kept? (hfragment : store.fragment? c = some g) (hkept : store.kept? c = none) :
    store.child? c = some ⟨g.origin, .deferred g.value none⟩ := by
  obtain ⟨⟨origin, content⟩, hc, hshown⟩ := Option.bind_eq_some_iff.mp hfragment
  rw [kept?, hc] at hkept
  cases content with
  | built id => cases hshown
  | deferred fragment result =>
      cases hshown
      have hresult : result = none := hkept
      rw [hc, hresult]

theorem kept?_kept (hfragment : store.fragment? c = some g) (other : ChildId) :
    (store.kept c g.value result).kept? other =
      if other = c then some result else store.kept? other := by
  obtain ⟨child, hc, _⟩ := Option.bind_eq_some_iff.mp hfragment
  rw [kept?, child?_kept hc]
  by_cases hother : other = c
  · rw [if_pos hother, if_pos hother]
    rfl
  · rw [if_neg hother, if_neg hother]
    rfl

/-- Keeping a right result leads to a later state. -/
theorem grows_kept_fragment (hfragment : store.fragment? c = some g)
    (hkept : store.kept? c = none) (hsettles : store.Settles g result) :
    store.Grows (store.kept c g.value result) :=
  grows_kept (unbuilt_of_kept? hfragment hkept) rfl hsettles

/-- A result that a child keeps is the right one. -/
theorem Sound.settles (hsound : store.Sound) (hfragment : store.fragment? c = some g)
    (hkept : store.kept? c = some result) : store.Settles g result := by
  obtain ⟨⟨origin, content⟩, hc, hshown⟩ := Option.bind_eq_some_iff.mp hfragment
  rw [kept?, hc] at hkept
  cases content with
  | built id => cases hshown
  | deferred fragment kept =>
      cases hshown
      have hkept : kept = some result := hkept
      exact hsound c _ hc fragment result (by rw [hkept])

/-- A child that keeps a result answers with it. -/
theorem schemaOf_of_kept? (hkept : store.kept? c = some result) :
    schemaOf c store = (result, store) := by
  obtain ⟨⟨origin, content⟩, hc, hresult⟩ := Option.bind_eq_some_iff.mp hkept
  cases content with
  | built id => cases hresult
  | deferred fragment kept =>
      have hkept : kept = some result := hresult
      have hcontent : (store.child c).content = .deferred fragment (some result) := by
        rw [child_of_child? hc, hkept]
      exact schemaOf_kept hcontent

/-- A child that keeps none is built, and keeps the result. -/
theorem schemaOf_of_unkept (hfragment : store.fragment? c = some g) (hkept : store.kept? c = none) :
    schemaOf c store = ((build g store).1, (build g store).2.kept c g.value (build g store).1) := by
  have hchild := child_of_child? (unbuilt_of_kept? hfragment hkept)
  have hcontent : (store.child c).content = .deferred g.value none := by rw [hchild]
  cases hbuild : g.build with
  | error e =>
      rw [schemaOf_error hcontent (by rw [hchild]; exact hbuild)]
      simp only [build, hbuild]
  | ok s =>
      rw [schemaOf_ok hcontent (by rw [hchild]; exact hbuild)]
      simp only [build, hbuild]

theorem build_appends (g : Fragment) (store : Store) : store.Appends (build g store).2 := by
  unfold build
  split
  · exact .refl store
  next s _ => exact (add_spec s store trivial).1

theorem build_settles (g : Fragment) (store : Store) :
    (build g store).2.Settles g (build g store).1 := by
  unfold build
  split
  next e hbuild => exact hbuild
  next s hbuild => exact ⟨s, hbuild, (add_spec s store trivial).2⟩

/-- A schema is stored where none has been. -/
theorem schema?_add (s : Schema Fragment) (store : Store) :
    store.schema? (add s store).1 = none := by
  have happends := (traverse_spec s store trivial).1
  have hid : (add s store).1 = ⟨(s.traverse addFragment store).2.cells.size⟩ := rfl
  rw [hid]
  cases hold : store.schema? ⟨(s.traverse addFragment store).2.cells.size⟩ with
  | none => rfl
  | some t =>
      have hlater := happends.schemas _ t hold
      simp [schema?] at hlater

theorem schema?_build (hid : (build g store).1 = .ok id) : store.schema? id = none := by
  unfold build at hid
  split at hid
  · cases hid
  next s _ =>
    cases hid
    exact schema?_add s store

end Store
end ApiSchema
