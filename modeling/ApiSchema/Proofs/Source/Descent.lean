import ApiSchema.Proofs.Pointer.Descent
import ApiSchema.Proofs.Source.Nested
import ApiSchema.Proofs.Source.Provenance
import ApiSchema.Proofs.View.Steps

/-!
Going down a document from schema to schema.

A step leads from a schema object to one of its nested schemas. A nested schema that holds no string
under `$ref` and loads has nested schemas of its own, and so on. `Fragment.Leads` says where a path
of steps leads when everything on its way can be built; `Fragment.Reaches` goes one step further,
into a nested schema of whatever kind. Two paths never come to the same place, and no path is longer
than the document is deep.
-/

namespace ApiSchema

theorem Json.member?_distinct {key : String} {v w : Json} (hv : v.Distinct)
    (h : v.member? key = some w) : w.Distinct := by
  cases v with
  | obj members => exact Pointer.below?_distinct hv (v := .obj members) h
  | _ => cases h

namespace Source
namespace Fragment

variable {f g g' : Fragment} {step step' : Step} {s : Schema Fragment} {v : Json}
  {members : OrderedMap Json}

/-- A fragment has a nested schema, one step down. -/
inductive Nests (f : Fragment) : Step → Fragment → Prop
  | item {a : Applicator} {index : Nat} {items : List Json} {w : Json}
      (list : f.value.member? a.name = some (.arr items)) (here : items[index]? = some w) :
      Nests f (.element a index) ⟨(f.origin.child a.name).element index, w⟩
  /-- A lone schema under `not` or `items` stands at the place of the keyword. -/
  | lone {a : Applicator} {members : OrderedMap Json} (allowed : a.allowsLone = true)
      (alone : f.value.member? a.name = some (.obj members)) :
      Nests f (.element a 0) ⟨f.origin.child a.name, .obj members⟩
  | property {members : OrderedMap Json} {key : String} {w : Json}
      (object : f.value.member? "properties" = some (.obj members))
      (here : OrderedMap.get? key members = some w) :
      Nests f (.property key) ⟨(f.origin.child "properties").child key, w⟩

/-- The nested schema that a step leads to. -/
def step? (f : Fragment) (step : Step) : Option Fragment :=
  Step.lookup? f.elements f.entries step

/-- All nested schemas with the steps that lead to them. -/
def branches (f : Fragment) : List (Step × Fragment) :=
  Step.listing f.elements f.entries

theorem get?_entries {members : OrderedMap Json}
    (h : f.value.member? "properties" = some (.obj members)) (key : String) :
    OrderedMap.get? key f.entries =
      (OrderedMap.get? key members).map (.mk ((f.origin.child "properties").child key)) := by
  rw [entries, h]
  exact OrderedMap.get?_map (fun key => Fragment.mk ((f.origin.child "properties").child key)) key
    members

theorem Nests.step? (h : f.Nests step g) : f.step? step = some g := by
  cases h with
  | item list here => simp [Fragment.step?, Step.lookup?, elements, list, here]
  | lone allowed alone => simp [Fragment.step?, Step.lookup?, elements, alone, allowed]
  | property object here =>
      rw [Fragment.step?, Step.lookup?, get?_entries object, here, Option.map_some]

theorem nests_of_step? (h : f.step? step = some g) : f.Nests step g := by
  cases step with
  | property key =>
      rw [step?, Step.lookup?] at h
      cases hobject : f.value.member? "properties" with
      | none => simp [entries, hobject] at h
      | some w =>
          cases w with
          | obj members =>
              rw [get?_entries hobject] at h
              obtain ⟨w, here, rfl⟩ := Option.map_eq_some_iff.mp h
              exact .property hobject here
          | _ => simp [entries, hobject] at h
  | element a index =>
      rw [step?, Step.lookup?, elements] at h
      split at h
      next items list =>
        rw [List.getElem?_mapIdx] at h
        obtain ⟨w, here, rfl⟩ := Option.map_eq_some_iff.mp h
        exact .item list here
      next members alone =>
        split at h
        next allowed =>
          cases index with
          | zero =>
              cases h
              exact .lone allowed alone
          | succ index => cases h
        next => cases h
      next => cases h

theorem nests_iff : f.Nests step g ↔ f.step? step = some g :=
  ⟨Nests.step?, nests_of_step?⟩

theorem nodup_entries (h : f.value.Distinct) : (OrderedMap.keys f.entries).Nodup := by
  unfold entries
  split
  next members object =>
    cases Json.member?_distinct h object with
    | obj keys _ => simpa [OrderedMap.keys, Function.comp_def] using keys
  next => exact List.nodup_nil

theorem mem_branches (h : f.value.Distinct) : (step, g) ∈ f.branches ↔ f.Nests step g :=
  (Step.mem_listing (nodup_entries h)).trans nests_iff.symm

theorem nodup_branches (h : f.value.Distinct) : (f.branches.map Prod.fst).Nodup :=
  Step.nodup_listing f.elements (nodup_entries h)

/-- Only an object has nested schemas. -/
theorem Nests.object (h : f.Nests step g) : ∃ members, f.value = .obj members := by
  obtain ⟨origin, value⟩ := f
  cases value with
  | obj members => exact ⟨members, rfl⟩
  | _ => cases h <;> contradiction

/-- A nested schema is found in the document where it is said to stand. -/
theorem Nests.grounded (h : f.Nests step g) (hf : f.Grounded v) : g.Grounded v := by
  obtain ⟨members, hvalue⟩ := h.object
  rw [Grounded, hvalue] at hf
  cases h with
  | item list here =>
      rw [hvalue] at list
      exact Pointer.resolve?_item (Pointer.resolve?_member hf list) here
  | lone _ alone =>
      rw [hvalue] at alone
      exact Pointer.resolve?_member hf alone
  | property object here =>
      rw [hvalue] at object
      exact Pointer.resolve?_member (Pointer.resolve?_member hf object) here

/-- Below a nested schema there is at least one level less. -/
theorem Nests.depth (h : f.Nests step g) : g.value.depth < f.value.depth := by
  obtain ⟨members, hvalue⟩ := h.object
  have hmember : ∀ {key : String} {w : Json}, f.value.member? key = some w →
      w.depth < f.value.depth := by
    intro key w hw
    rw [hvalue] at hw ⊢
    exact (Json.below?_extent (v := .obj members) hw).2
  cases h with
  | item list here =>
      exact Nat.lt_trans (Nat.lt_succ_of_le (Json.depth_le_depthItems (List.mem_of_getElem? here)))
        (hmember list)
  | lone _ alone => exact hmember alone
  | property object here =>
      have hmem := OrderedMap.mem_of_get? here
      exact Nat.lt_trans (Nat.lt_succ_of_le (Json.depth_le_depthMembers hmem))
        (hmember object)

theorem elements_size (hvalue : f.value = .obj members) (a : Applicator) :
    ((f.elements a).map (·.value.size)).sum ≤ Json.sizeAt a.name members := by
  have hmember : f.value.member? a.name = OrderedMap.get? a.name members := by rw [hvalue]; rfl
  unfold elements
  split
  next items list =>
    have hitems : (items.mapIdx fun index item =>
        Fragment.mk ((f.origin.child a.name).element index) item).map (·.value.size) =
          items.map Json.size := by
      apply List.ext_getElem?
      intro i
      simp only [List.getElem?_map, List.getElem?_mapIdx, Option.map_map]
      rfl
    rw [hitems, Json.sizeAt, ← hmember, list, ← Json.sizeItems_eq]
    exact Nat.le_succ _
  next members' alone =>
    split
    · rw [Json.sizeAt, ← hmember, alone]
      exact Nat.le_refl _
    · exact Nat.zero_le _
  next => exact Nat.zero_le _

theorem entries_size (hvalue : f.value = .obj members) :
    (f.entries.map fun e => e.2.value.size).sum ≤ Json.sizeAt "properties" members := by
  have hmember : f.value.member? "properties" = OrderedMap.get? "properties" members := by
    rw [hvalue]
    rfl
  unfold entries
  split
  next members' object =>
    rw [List.map_map, Json.sizeAt, ← hmember, object]
    exact Nat.le_trans (Nat.le_of_eq (Json.sizeMembers_eq members').symm) (Nat.le_succ _)
  next => exact Nat.zero_le _

/-- The nested schemas of an object are together smaller than the object. -/
theorem branches_size (hvalue : f.value = .obj members) :
    (f.branches.map fun b => b.2.value.size).sum < f.value.size := by
  have hkeys : (Applicator.all.map Applicator.name ++ ["properties"]).Nodup := by decide
  have hsum := Json.sum_sizeAt_le hkeys members
  have hlists : ∀ applicators : List Applicator,
      (applicators.map fun a => ((f.elements a).map (·.value.size)).sum).sum ≤
        ((applicators.map Applicator.name).map fun key => Json.sizeAt key members).sum := by
    intro applicators
    induction applicators with
    | nil => exact Nat.le_refl 0
    | cons a rest ih => exact Nat.add_le_add (elements_size hvalue a) ih
  have hlists := hlists Applicator.all
  have hentries := entries_size hvalue
  have hlisting := Step.sum_listing (fun g : Fragment => g.value.size) f.elements f.entries
  show ((Step.listing f.elements f.entries).map fun b => b.2.value.size).sum < f.value.size
  rw [hlisting, hvalue, Json.size]
  rw [List.map_append, List.sum_append, List.map_singleton, List.sum_singleton] at hsum
  omega

/-- Reads the first step off the keys of a place below a fragment. -/
def firstStep? (f : Fragment) : List String → Option (Step × List String)
  | [] => none
  | keyword :: keys =>
    match Applicator.ofName? keyword, f.value.member? keyword, keys with
    | some a, some (.arr _), index :: keys => do return (.element a (← Pointer.index? index), keys)
    | some a, some (.obj _), keys => some (.element a 0, keys)
    | none, _, key :: keys => some (.property key, keys)
    | _, _, _ => none

/-- The step to a nested schema can be read off the place of anything below that. -/
theorem Nests.firstStep? (h : f.Nests step g) : ∃ front, g.origin = f.origin.descend front ∧
    ∀ keys, f.firstStep? (front ++ keys) = some (step, keys) := by
  cases h with
  | @item a index items w list here =>
      refine ⟨[a.name, toString index], Pointer.element_eq_child _ _, fun keys => ?_⟩
      simp only [List.cons_append, List.nil_append, Fragment.firstStep?, Applicator.ofName?_name,
        list, Pointer.index?_toString]
      rfl
  | @lone a members allowed alone =>
      refine ⟨[a.name], rfl, fun keys => ?_⟩
      simp [Fragment.firstStep?, Applicator.ofName?_name, alone]
  | @property members key w object here =>
      have hname : Applicator.ofName? "properties" = none := by decide
      refine ⟨["properties", key], rfl, fun keys => ?_⟩
      simp [Fragment.firstStep?, hname]

/-- A path leads from one fragment to another, nested schema by nested schema. -/
inductive Chain : Fragment → List Step → Fragment → Prop
  | here (f : Fragment) : Chain f [] f
  | down {f g h : Fragment} {step : Step} {path : List Step} (nests : f.Nests step g)
      (further : Chain g path h) : Chain f (step :: path) h

theorem Chain.origin {path : List Step} (h : f.Chain path g) :
    ∃ keys, g.origin = f.origin.descend keys := by
  induction h with
  | here f => exact ⟨[], rfl⟩
  | down nests _ ih =>
      obtain ⟨front, hfront, _⟩ := nests.firstStep?
      obtain ⟨keys, hkeys⟩ := ih
      exact ⟨front ++ keys, by rw [hkeys, hfront, Pointer.descend_append]⟩

/-- No path that goes anywhere leads back to where it starts. -/
theorem Chain.ne_origin {path : List Step} (h : f.Chain (step :: path) g) :
    g.origin ≠ f.origin := by
  intro heq
  cases h with
  | down nests further =>
      obtain ⟨front, hfront, hread⟩ := nests.firstStep?
      obtain ⟨keys, hkeys⟩ := further.origin
      rw [hkeys, hfront, ← Pointer.descend_append] at heq
      have hnil : front ++ keys = [] := Pointer.descend_injective heq
      have hstep := hread keys
      rw [hnil] at hstep
      cases hstep

/-- Different paths from one fragment come to different places. -/
theorem Chain.path_eq {path path' : List Step} (h : f.Chain path g) (h' : f.Chain path' g')
    (heq : g.origin = g'.origin) : path = path' ∧ g = g' := by
  induction h generalizing path' with
  | here f =>
      cases h' with
      | here => exact ⟨rfl, rfl⟩
      | down nests further => exact absurd heq.symm (Chain.down nests further).ne_origin
  | @down f g h step path nests further ih =>
      cases h' with
      | here => exact absurd heq (Chain.down nests further).ne_origin
      | @down _ g' _ step' path' nests' further' =>
          obtain ⟨front, hfront, hread⟩ := nests.firstStep?
          obtain ⟨front', hfront', hread'⟩ := nests'.firstStep?
          obtain ⟨keys, hkeys⟩ := further.origin
          obtain ⟨keys', hkeys'⟩ := further'.origin
          rw [hkeys, hkeys', hfront, hfront', ← Pointer.descend_append,
            ← Pointer.descend_append] at heq
          have hsame := hread keys
          rw [Pointer.descend_injective heq, hread' keys'] at hsame
          cases hsame
          obtain rfl := Option.some.inj (nests.step?.symm.trans nests'.step?)
          obtain ⟨rfl, rfl⟩ := ih further' (by rw [hkeys, hkeys'])
          exact ⟨rfl, rfl⟩

/-- A fragment that is no reference loads as a schema. -/
def Builds (f : Fragment) (s : Schema Fragment) : Prop :=
  (∀ target, f.value.member? "$ref" ≠ some (.str target)) ∧ load f.origin f.value = .ok s

/-- Why a fragment has no schema. -/
inductive Refuses (f : Fragment) : LoadError → Prop
  /-- It is a reference, whatever else it holds. -/
  | reference {target : String} (found : f.value.member? "$ref" = some (.str target)) :
      Refuses f (.unresolvedReference f.origin target)
  /-- It does not load. -/
  | malformed {e : LoadError} (own : ∀ target, f.value.member? "$ref" ≠ some (.str target))
      (refused : load f.origin f.value = .error e) : Refuses f e

theorem reference?_eq_some {target : String} :
    f.reference? = some target ↔ f.value.member? "$ref" = some (.str target) := by
  unfold reference?
  constructor
  · intro h
    obtain ⟨w, hmember, hstring⟩ := Option.bind_eq_some_iff.mp h
    rw [hmember, string?_eq_some hstring]
  · intro h
    rw [h]
    rfl

theorem reference?_eq_none :
    f.reference? = none ↔ ∀ target, f.value.member? "$ref" ≠ some (.str target) := by
  rw [Option.eq_none_iff_forall_ne_some]
  exact forall_congr' fun target => not_congr reference?_eq_some

theorem builds_iff : f.Builds s ↔ f.build = .ok s := by
  unfold Builds build
  cases hreference : f.reference? with
  | some target =>
      have hfound := reference?_eq_some.mp hreference
      exact ⟨fun h => absurd hfound (h.1 target), nofun⟩
  | none => exact and_iff_right (reference?_eq_none.mp hreference)

theorem refuses_iff {e : LoadError} : f.Refuses e ↔ f.build = .error e := by
  unfold build
  cases hreference : f.reference? with
  | some target =>
      have hfound := reference?_eq_some.mp hreference
      constructor
      · intro h
        cases h with
        | reference found =>
            cases hfound.symm.trans found
            rfl
        | malformed own => exact absurd hfound (own target)
      · intro h
        cases h
        exact .reference hfound
  | none =>
      have hown := reference?_eq_none.mp hreference
      constructor
      · intro h
        cases h with
        | reference found => exact absurd found (hown _)
        | malformed _ refused => exact refused
      · exact .malformed hown

/-- A path leads to a fragment if everything on its way, the fragment included, can be built. -/
inductive Leads : Fragment → List Step → Fragment → Prop
  | here (f : Fragment) : Leads f [] f
  | down {f g h : Fragment} {step : Step} {path : List Step} {s : Schema Fragment}
      (nests : f.Nests step g) (builds : g.Builds s) (further : Leads g path h) :
      Leads f (step :: path) h

/-- A path reaches a fragment if it is nested in one that the path but for its last step leads
to. -/
def Reaches (f : Fragment) (path : List Step) (g : Fragment) : Prop :=
  ∃ front step h, path = front ++ [step] ∧ f.Leads front h ∧ h.Nests step g

theorem Leads.chain {path : List Step} (h : f.Leads path g) : f.Chain path g := by
  induction h with
  | here f => exact .here f
  | down nests _ _ ih => exact .down nests ih

theorem Chain.append {path path' : List Step} (h : f.Chain path g) (h' : g.Chain path' g') :
    f.Chain (path ++ path') g' := by
  induction h with
  | here f => exact h'
  | down nests _ ih => exact .down nests (ih h')

theorem Leads.append {path path' : List Step} (h : f.Leads path g) (h' : g.Leads path' g') :
    f.Leads (path ++ path') g' := by
  induction h with
  | here f => exact h'
  | down nests builds _ ih => exact .down nests builds (ih h')

/-- A path leads on from where its front leads. -/
theorem Leads.split {front : List Step} (h : f.Leads (front ++ [step]) g) :
    ∃ f' s, f.Leads front f' ∧ f'.Nests step g ∧ g.Builds s := by
  induction front generalizing f with
  | nil =>
      cases h with
      | @down _ _ _ _ _ s nests builds further =>
          cases further
          exact ⟨f, s, .here f, nests, builds⟩
  | cons first rest ih =>
      cases h with
      | down nests builds further =>
          obtain ⟨f', s, hleads, hnests, hbuilds⟩ := ih further
          exact ⟨f', s, .down nests builds hleads, hnests, hbuilds⟩

theorem Reaches.leads {path : List Step} (h : f.Reaches path g) (hg : g.Builds s) :
    f.Leads path g := by
  obtain ⟨front, step, h, rfl, hleads, hnests⟩ := h
  exact hleads.append (.down hnests hg (.here g))

theorem Reaches.path_ne_nil {path : List Step} (h : f.Reaches path g) : path ≠ [] := by
  obtain ⟨front, step, _, rfl, _⟩ := h
  simp

/-- A path that leads anywhere but to its start reaches where it leads. -/
theorem Leads.reaches {path : List Step} (h : f.Leads path g) (hpath : path ≠ []) :
    f.Reaches path g := by
  rcases List.eq_nil_or_concat path with hnil | ⟨front, step, hconcat⟩
  · exact absurd hnil hpath
  · rw [List.concat_eq_append] at hconcat
    obtain ⟨f', s, hleads, hnests, _⟩ := (hconcat ▸ h).split
    exact ⟨front, step, f', hconcat, hleads, hnests⟩

theorem Leads.builds {path : List Step} (h : f.Leads path g) (hpath : path ≠ []) :
    ∃ s, g.Builds s := by
  rcases List.eq_nil_or_concat path with hnil | ⟨front, step, hconcat⟩
  · exact absurd hnil hpath
  · rw [List.concat_eq_append] at hconcat
    obtain ⟨_, s, _, _, hbuilds⟩ := (hconcat ▸ h).split
    exact ⟨s, hbuilds⟩

theorem Chain.eq {path : List Step} (h : f.Chain path g) (h' : f.Chain path g') : g = g' := by
  induction h with
  | here f =>
      cases h'
      rfl
  | down nests _ ih =>
      cases h' with
      | down nests' further' =>
          obtain rfl := Option.some.inj (nests.step?.symm.trans nests'.step?)
          exact ih further'

theorem Reaches.chain {path : List Step} (h : f.Reaches path g) : f.Chain path g := by
  obtain ⟨front, step, h, rfl, hleads, hnests⟩ := h
  exact hleads.chain.append (.down hnests (.here g))

theorem Chain.grounded {path : List Step} (h : f.Chain path g) (hf : f.Grounded v) :
    g.Grounded v := by
  induction h with
  | here f => exact hf
  | down nests _ ih => exact ih (nests.grounded hf)

/-- Every step of a path uses up a level of the document. -/
theorem Chain.depth {path : List Step} (h : f.Chain path g) :
    path.length + g.value.depth ≤ f.value.depth := by
  induction h with
  | here f => simp
  | down nests _ ih =>
      have hdepth := nests.depth
      rw [List.length_cons]
      omega

/-- Every step but the last one leads to an object, so a path that leads somewhere leaves a
level. -/
theorem Leads.length_lt {path : List Step} (h : f.Leads path g)
    (hg : ∃ members, g.value = .obj members) : path.length < f.value.depth := by
  obtain ⟨members, hvalue⟩ := hg
  have hdepth := h.chain.depth
  rw [hvalue, Json.depth] at hdepth
  omega

end Fragment
end Source
end ApiSchema
