import ApiSchema.Proofs.Sharing.Informed
import ApiSchema.Proofs.Source.Twins
import ApiSchema.Proofs.Store.Equality

/-!
Equal deferred children stand for the same schema.

Equality of deferred children compares fragments, not what they are built to, and it does not see
the order of members. Still two equal ones agree on all there is to ask them: what they refer to,
whether they can be built, and the schemas that they are built to, up to the order of maps. The
children of those are again equal, pair by pair, so the same holds at the end of every path.
-/

namespace ApiSchema

open Source (Schema Fragment)

namespace Source.Fragment

variable {f g : Fragment} {step : Step}

/-- The nested schema at the end of a path, if all that come before it can be built. -/
def below? : List Step → Fragment → Option Fragment
  | [], f => some f
  | step :: path, f =>
    match f.build with
    | .error _ => none
    | .ok _ => (f.step? step).bind (below? path)

theorem Twin.build_ok_iff (h : f.Twin g) :
    (∃ s, f.build = .ok s) ↔ ∃ t, g.build = .ok t := by
  constructor
  · rintro ⟨s, hs⟩
    obtain ⟨t, ht, _⟩ := h.builds hs
    exact ⟨t, ht⟩
  · rintro ⟨t, ht⟩
    obtain ⟨s, hs, _⟩ := h.symm.builds ht
    exact ⟨s, hs⟩

theorem Twin.step? (h : f.Twin g) (step : Step) :
    f.step? step = none ∧ g.step? step = none ∨
      ∃ f' g', f.step? step = some f' ∧ g.step? step = some g' ∧ f'.Twin g' := by
  cases hf : f.step? step with
  | some f' =>
      obtain ⟨g', hg, htwin⟩ := h.nests (nests_of_step? hf)
      exact Or.inr ⟨f', g', rfl, hg.step?, htwin⟩
  | none =>
      cases hg : g.step? step with
      | none => exact Or.inl ⟨rfl, rfl⟩
      | some g' =>
          obtain ⟨f', hf', _⟩ := h.symm.nests (nests_of_step? hg)
          cases hf.symm.trans hf'.step?

/-- Paths lead from twins to twins, or nowhere. -/
theorem Twin.below? (h : f.Twin g) (path : List Step) :
    f.below? path = none ∧ g.below? path = none ∨
      ∃ f' g', f.below? path = some f' ∧ g.below? path = some g' ∧ f'.Twin g' := by
  induction path generalizing f g with
  | nil => exact Or.inr ⟨f, g, rfl, rfl, h⟩
  | cons step path ih =>
      have hbuild := h.build_ok_iff
      rw [Fragment.below?, Fragment.below?]
      cases hf : f.build with
      | error e =>
          cases hg : g.build with
          | error e' => exact Or.inl ⟨rfl, rfl⟩
          | ok t => exact nomatch hf.symm.trans (hbuild.mpr ⟨t, hg⟩).choose_spec
      | ok s =>
          cases hg : g.build with
          | error e' => exact nomatch hg.symm.trans (hbuild.mp ⟨s, hf⟩).choose_spec
          | ok t =>
              rcases h.step? step with ⟨hnone, hnone'⟩ | ⟨f', g', hf', hg', htwin⟩
              · exact Or.inl ⟨by rw [hnone]; rfl, by rw [hnone']; rfl⟩
              · simp only [hf', hg', Option.bind_some]
                exact ih htwin

end Source.Fragment

namespace Store

variable {store : Store} {a b c : ChildId} {f g : Fragment}

/-- Goes from child to child by asking each for its schema. -/
def follow : List Step → ChildId → StateM Store (Option ChildId)
  | [], c => return some c
  | step :: path, c => do
    match ← schemaOf c with
    | .error _ => return none
    | .ok id =>
      match ((← get).schema id).step? step with
      | none => return none
      | some d => follow path d

theorem follow_cons_error {step : Step} {path : List Step} {e : LoadError} {store' : Store}
    (h : schemaOf c store = (.error e, store')) :
    follow (step :: path) c store = (none, store') := by
  simp only [follow, bind, StateT.bind, h]
  rfl

theorem follow_cons_ok {step : Step} {path : List Step} {id : SchemaId} {store' : Store}
    (h : schemaOf c store = (.ok id, store')) :
    follow (step :: path) c store =
      match (store'.schema id).step? step with
      | none => (none, store')
      | some d => follow path d store' := by
  simp only [follow, bind, StateT.bind, h, get, getThe, MonadStateOf.get, StateT.get, pure]
  cases (store'.schema id).step? step <;> rfl

/-- A path of children leads where the path of nested schemas leads. -/
theorem follow_spec (hsound : store.Sound) (hc : store.fragment? c = some f) (path : List Step) :
    store.Grows (follow path c store).2 ∧
      (follow path c store).1.map (follow path c store).2.fragment? =
        (f.below? path).map some := by
  induction path generalizing store c f with
  | nil => exact ⟨.refl store, congrArg some hc⟩
  | cons step path ih =>
      have hgrows := schemaOf_grows c store
      have hsettles := schemaOf_settles hsound hc
      obtain ⟨⟨result, store'⟩, hask⟩ : ∃ x, schemaOf c store = x := ⟨_, rfl⟩
      rw [hask] at hgrows hsettles
      cases result with
      | error e =>
          have hbuild : f.build = .error e := hsettles
          rw [follow_cons_error hask, Fragment.below?, hbuild]
          exact ⟨hgrows, rfl⟩
      | ok id =>
          have hstep := (Sharing.storedAt_of_settles hsettles).step?_eq step
          obtain ⟨s, hbuild, _⟩ := hsettles
          rw [follow_cons_ok hask, Fragment.below?, hbuild]
          cases hd : (store'.schema id).step? step with
          | none =>
              rw [hd] at hstep
              rw [Option.map_eq_none_iff.mp hstep.symm]
              exact ⟨hgrows, rfl⟩
          | some d =>
              rw [hd] at hstep
              obtain ⟨g, hg, hshown⟩ := Option.map_eq_some_iff.mp hstep.symm
              obtain ⟨hgrows', hend⟩ := ih (hgrows.sound hsound) hshown.symm
              rw [hg]
              exact ⟨hgrows.trans hgrows', hend⟩

theorem child_of_fragment? (h : store.fragment? c = some f) :
    ∃ result, store.child c = ⟨f.origin, .deferred f.value result⟩ := by
  obtain ⟨⟨origin, content⟩, hc, hshown⟩ := Option.bind_eq_some_iff.mp h
  rw [child_of_child? hc]
  cases content with
  | built id => cases hshown
  | deferred fragment result =>
      cases hshown
      exact ⟨result, rfl⟩

/-- Deferred children are compared by their fragments. -/
theorem sameChild_deferred (horderly : store.Orderly) (ha : store.fragment? a = some f)
    (hb : store.fragment? b = some g) : store.sameChild a b = f.same g := by
  obtain ⟨result, hchild⟩ := child_of_fragment? ha
  obtain ⟨result', hchild'⟩ := child_of_fragment? hb
  rw [sameChild_eq horderly (has_of_fragment? ha) (has_of_fragment? hb), hchild, hchild']
  rfl

theorem twin_of_sameChild (horderly : store.Orderly) (ha : store.fragment? a = some f)
    (hb : store.fragment? b = some g) (hsame : store.sameChild a b = true) : f.Twin g := by
  rw [sameChild_deferred horderly ha hb, Fragment.same, Bool.and_eq_true, beq_iff_eq] at hsame
  exact ⟨hsame.1, hsame.2, horderly.fragment ha, horderly.fragment hb⟩

theorem sameChild_of_twin (horderly : store.Orderly) (ha : store.fragment? a = some f)
    (hb : store.fragment? b = some g) (htwin : f.Twin g) : store.sameChild a b = true := by
  rw [sameChild_deferred horderly ha hb, Fragment.same, htwin.origin, htwin.same,
    beq_self_eq_true, Bool.and_self]

/-- Schemas that have been stored match as they did before. -/
theorem matches_of_shows (horderly : store.Orderly) {i j : SchemaId} {s t : Schema Fragment}
    (hi : store.Shows i s) (hj : store.Shows j t) (h : s.Matches Fragment.same t) :
    (store.schema i).Matches store.sameChild (store.schema j) := by
  obtain ⟨u, hu, hs⟩ := hi
  obtain ⟨v, hv, ht⟩ := hj
  rw [schema_of_schema? hu, schema_of_schema? hv]
  let sameShown : Option Fragment → Option Fragment → Bool := fun x y =>
    x.any fun f => y.any fun g => f.same g
  have hmapped : (u.map store.fragment?).Matches sameShown (v.map store.fragment?) := by
    rw [hs, ht]
    exact (Schema.matches_map some).mpr (h.mono fun f g hfg => hfg)
  refine ((Schema.matches_map store.fragment?).mp hmapped).mono fun c d hcd => ?_
  obtain ⟨f, hf, hcd⟩ := (Option.any_eq_true _ _).mp hcd
  obtain ⟨g, hg, hcd⟩ := (Option.any_eq_true _ _).mp hcd
  rw [sameChild_deferred horderly hf hg, hcd]

/-- Two children that are asked one after the other agree on their references, on whether they have
a schema, on the error if they are references, and on their schemas up to the order of maps. -/
structure Alike (store : Store) (a b : ChildId) : Prop where
  references : (store.child a).reference? = (store.child b).reference?
  accepted : (∃ i, (schemaOf a store).1 = .ok i) ↔
    ∃ j, (schemaOf b (schemaOf a store).2).1 = .ok j
  unresolved : ∀ target, (store.child a).reference? = some target →
    (schemaOf a store).1 = .error (.unresolvedReference (store.child a).origin target) ∧
      (schemaOf b (schemaOf a store).2).1 =
        .error (.unresolvedReference (store.child a).origin target)
  schemas : ∀ i j, (schemaOf a store).1 = .ok i → (schemaOf b (schemaOf a store).2).1 = .ok j →
    ((schemaOf b (schemaOf a store).2).2.schema i).Matches
      (schemaOf b (schemaOf a store).2).2.sameChild ((schemaOf b (schemaOf a store).2).2.schema j)

theorem Settles.ok_iff {result : Except LoadError SchemaId} (h : store.Settles f result) :
    (∃ i, result = .ok i) ↔ ∃ s, f.build = .ok s := by
  cases result with
  | error e => exact iff_of_false nofun fun ⟨s, hs⟩ => nomatch hs.symm.trans (h : f.build = .error e)
  | ok i =>
      obtain ⟨s, hbuild, _⟩ := h
      exact iff_of_true ⟨i, rfl⟩ ⟨s, hbuild⟩

theorem Settles.unresolved {result : Except LoadError SchemaId} (h : store.Settles f result)
    {target : String} (htarget : f.reference? = some target) :
    result = .error (.unresolvedReference f.origin target) := by
  have hbuild : f.build = .error (.unresolvedReference f.origin target) := by
    rw [Fragment.build, htarget]
  cases result with
  | error e =>
      have he : f.build = .error e := h
      rw [Except.error.inj (he.symm.trans hbuild)]
  | ok i =>
      obtain ⟨s, hs, _⟩ := h
      cases hbuild.symm.trans hs

/-- Children that stand for twins are alike. -/
theorem alike_of_twin (hsound : store.Sound) (horderly : store.Orderly)
    (ha : store.fragment? a = some f) (hb : store.fragment? b = some g) (htwin : f.Twin g) :
    store.Alike a b := by
  have hreference : ∀ {c : ChildId} {f : Fragment}, store.fragment? c = some f →
      (store.child c).reference? = f.reference? ∧ (store.child c).origin = f.origin := by
    intro c f hc
    obtain ⟨result, hchild⟩ := child_of_fragment? hc
    rw [hchild]
    exact ⟨rfl, rfl⟩
  have hgrows := schemaOf_grows a store
  have hgrows' := schemaOf_grows b (schemaOf a store).2
  have hfirst := schemaOf_settles hsound ha
  have hsecond := schemaOf_settles (hgrows.sound hsound) (hgrows.fragment? hb)
  refine ⟨?_, ?_, fun target htarget => ?_, fun i j hi hj => ?_⟩
  · rw [(hreference ha).1, (hreference hb).1, htwin.reference?_eq]
  · rw [hfirst.ok_iff, hsecond.ok_iff, htwin.build_ok_iff]
  · rw [(hreference ha).1] at htarget
    rw [(hreference ha).2, hfirst.unresolved htarget, htwin.origin,
      hsecond.unresolved (htwin.reference?_eq ▸ htarget)]
    exact ⟨rfl, rfl⟩
  · rw [hi] at hfirst
    rw [hj] at hsecond
    obtain ⟨s, hs, hshows⟩ := hfirst
    obtain ⟨t, ht, hshows'⟩ := hsecond
    obtain ⟨t', ht', hmatches⟩ := htwin.builds hs
    obtain rfl := Except.ok.inj (ht.symm.trans ht')
    exact matches_of_shows ((horderly.schemaOf a).schemaOf b) (hgrows'.shows hshows) hshows'
      hmatches

theorem Made.follow (h : store.Made) (path : List Step) (c : ChildId) :
    (follow path c store).2.Made := by
  induction path generalizing store c with
  | nil => exact h
  | cons step path ih =>
      have hasked := h.ask c
      obtain ⟨⟨result, store'⟩, hask⟩ : ∃ x, schemaOf c store = x := ⟨_, rfl⟩
      rw [hask] at hasked
      cases result with
      | error e =>
          rw [follow_cons_error hask]
          exact hasked
      | ok id =>
          rw [follow_cons_ok hask]
          split
          · exact hasked
          · exact ih hasked _

/-- Equal deferred children are alike, and so are the children that a path leads to from the two of
them, which are equal again, or else it leads nowhere from both. The empty path leads to the two
themselves. -/
theorem Made.equal_children_alike (h : store.Made) {a b : ChildId} {f g : Fragment}
    (ha : store.fragment? a = some f) (hb : store.fragment? b = some g)
    (hsame : store.sameChild a b = true) (path : List Step) :
    let first := Store.follow path a store
    let second := Store.follow path b first.2
    first.1 = none ∧ second.1 = none ∨
      ∃ c d, first.1 = some c ∧ second.1 = some d ∧ second.2.sameChild c d = true ∧
        second.2.Alike c d := by
  intro first second
  have htwin := twin_of_sameChild h.orderly ha hb hsame
  obtain ⟨hgrows, hend⟩ := follow_spec h.sound ha path
  obtain ⟨hgrows', hend'⟩ := follow_spec (hgrows.sound h.sound) (hgrows.fragment? hb) path
  rcases htwin.below? path with ⟨hnone, hnone'⟩ | ⟨f', g', hf', hg', htwin'⟩
  · rw [hnone] at hend
    rw [hnone'] at hend'
    exact Or.inl ⟨Option.map_eq_none_iff.mp hend, Option.map_eq_none_iff.mp hend'⟩
  · rw [hf'] at hend
    rw [hg'] at hend'
    obtain ⟨c, hc, hshown⟩ := Option.map_eq_some_iff.mp hend
    obtain ⟨d, hd, hshown'⟩ := Option.map_eq_some_iff.mp hend'
    have hmade : second.2.Made := (h.follow path a).follow path b
    have hshown := hgrows'.fragment? hshown
    exact Or.inr ⟨c, d, hc, hd, sameChild_of_twin hmade.orderly hshown hshown' htwin',
      alike_of_twin hmade.sound hmade.orderly hshown hshown' htwin'⟩

/-- Two deferred children whose fragments differ in the order of members, at two depths. -/
def swapped : Store :=
  let a : Json := .obj [("type", .str "string"), ("x-unit", .integer 1)]
  let a' : Json := .obj [("x-unit", .integer 1), ("type", .str "string")]
  let f : Json := .obj [("title", .str "pair"), ("properties", .obj [("a", a), ("b", .obj [])])]
  let g : Json := .obj [("properties", .obj [("b", .obj []), ("a", a')]), ("title", .str "pair")]
  (addFragment ⟨.root, g⟩ (addFragment ⟨.root, f⟩ {}).2).2

theorem made_swapped : swapped.Made :=
  (Made.empty.defer ⟨by decide, rfl⟩).defer ⟨by decide, rfl⟩

theorem Made.equal_children_alike_swapped : swapped.Made ∧ swapped.sameChild ⟨0⟩ ⟨1⟩ = true ∧
    ∃ c d, (Store.follow [.property "a"] ⟨0⟩ swapped).1 = some c ∧
      (Store.follow [.property "a"] ⟨1⟩ (Store.follow [.property "a"] ⟨0⟩ swapped).2).1 = some d ∧
      (Store.follow [.property "a"] ⟨1⟩
        (Store.follow [.property "a"] ⟨0⟩ swapped).2).2.Alike c d := by
  have hsame : swapped.sameChild ⟨0⟩ ⟨1⟩ = true := by rfl
  rcases Made.equal_children_alike made_swapped rfl rfl hsame [.property "a"] with
    ⟨hnone, _⟩ | ⟨c, d, hc, hd, _, halike⟩
  · have hfound : (Store.follow [.property "a"] ⟨0⟩ swapped).1 = some ⟨2⟩ := by rfl
    cases hfound.symm.trans hnone
  · exact ⟨made_swapped, hsame, c, d, hc, hd, halike⟩

end Store
end ApiSchema
