import ApiSchema.Proofs.OrderedMap
import ApiSchema.View.Walk
import Mathlib.Algebra.GroupWithZero.Nat
import Mathlib.Data.List.Nodup

/-!
What steps lead to.

Handles in a view and nested schemas in a document are arranged alike: a list for each applicator
and a map for the properties. A step finds one of them, and all of them can be listed, each with the
step that finds it.
-/

namespace ApiSchema

/-- The value of a key in a map whose values are changed. -/
theorem OrderedMap.get?_map {α β : Type} (f : String → α → β) (key : String) (map : OrderedMap α) :
    get? key (map.map fun e => (e.1, f e.1 e.2)) = (get? key map).map (f key) := by
  induction map with
  | nil => rfl
  | cons entry rest ih =>
      by_cases hkey : entry.1 = key
      · simp [get?, hkey]
      · simpa [get?, hkey] using ih

namespace Step

variable {α β : Type} {lists : Applicator → List α} {entries : OrderedMap α} {step : Step} {x : α}

def lookup? (lists : Applicator → List α) (entries : OrderedMap α) : Step → Option α
  | .property key => OrderedMap.get? key entries
  | .element a index => (lists a)[index]?

/-- Everything with the step that finds it: applicator lists, then properties. -/
def listing (lists : Applicator → List α) (entries : OrderedMap α) : List (Step × α) :=
  (Applicator.all.flatMap fun a => (lists a).mapIdx fun i x => (.element a i, x)) ++
    entries.map fun (key, x) => (.property key, x)

theorem lookup?_map (f : α → β) (lists : Applicator → List α) (entries : OrderedMap α)
    (step : Step) :
    lookup? (fun a => (lists a).map f) (entries.map fun e => (e.1, f e.2)) step =
      (lookup? lists entries step).map f := by
  cases step with
  | property key => exact OrderedMap.get?_map (fun _ => f) key entries
  | element a index => exact List.getElem?_map

theorem listing_map (f : α → β) (lists : Applicator → List α) (entries : OrderedMap α) :
    listing (fun a => (lists a).map f) (entries.map fun e => (e.1, f e.2)) =
      (listing lists entries).map fun b => (b.1, f b.2) := by
  have hlists : ∀ a, ((lists a).map f).mapIdx (fun i x => (Step.element a i, x)) =
      ((lists a).mapIdx fun i x => (Step.element a i, x)).map fun b => (b.1, f b.2) := by
    intro a
    apply List.ext_getElem?
    intro i
    simp only [List.getElem?_mapIdx, List.getElem?_map, Option.map_map]
    rfl
  simp only [listing, hlists, List.map_append, List.map_flatMap, List.map_map]
  rfl

theorem mem_all (a : Applicator) : a ∈ Applicator.all := by
  cases a <;> decide

/-- The listing has what steps find, and nothing else. -/
theorem mem_listing (hkeys : (OrderedMap.keys entries).Nodup) :
    (step, x) ∈ listing lists entries ↔ lookup? lists entries step = some x := by
  rw [listing, List.mem_append, List.mem_flatMap, List.mem_map]
  cases step with
  | property key =>
      constructor
      · rintro (⟨a, _, hmem⟩ | ⟨entry, hmem, heq⟩)
        · obtain ⟨i, hi, heq⟩ := List.mem_mapIdx.mp hmem
          cases heq
        · cases heq
          exact OrderedMap.get?_of_mem hkeys hmem
      · exact fun h => Or.inr ⟨(key, x), OrderedMap.mem_of_get? h, rfl⟩
  | element a index =>
      constructor
      · rintro (⟨a, _, hmem⟩ | ⟨entry, hmem, heq⟩)
        · obtain ⟨i, hi, heq⟩ := List.mem_mapIdx.mp hmem
          cases heq
          exact List.getElem?_eq_getElem hi
        · cases heq
      · intro h
        obtain ⟨hindex, heq⟩ := List.getElem?_eq_some_iff.mp h
        exact Or.inl ⟨a, mem_all a, List.mem_mapIdx.mpr ⟨index, hindex, by rw [heq]⟩⟩

/-- No step is listed twice. -/
theorem nodup_listing (lists : Applicator → List α) (hkeys : (OrderedMap.keys entries).Nodup) :
    ((listing lists entries).map Prod.fst).Nodup := by
  have hlists : ∀ a, ((lists a).mapIdx fun i x => (Step.element a i, x)).map Prod.fst =
      (List.range (lists a).length).map (Step.element a) := by
    intro a
    apply List.ext_getElem
    · simp
    · intro i _ _
      simp
  have hentries : (entries.map fun e => (Step.property e.1, e.2)).map Prod.fst =
      (OrderedMap.keys entries).map Step.property := by
    rw [OrderedMap.keys, List.map_map, List.map_map]
    rfl
  simp only [listing, List.map_append, List.map_flatMap, hlists]
  rw [hentries]
  refine List.nodup_append.mpr ⟨List.nodup_flatMap.mpr ⟨fun a _ => ?_, ?_⟩, ?_, ?_⟩
  · exact List.nodup_range.map fun i j h => (Step.element.inj h).2
  · refine List.Pairwise.imp ?_ (show Applicator.all.Nodup by decide)
    intro a b hne step ha hb
    obtain ⟨i, _, rfl⟩ := List.mem_map.mp ha
    obtain ⟨j, _, heq⟩ := List.mem_map.mp hb
    exact hne (Step.element.inj heq).1.symm
  · exact hkeys.map fun i j h => Step.property.inj h
  · intro step hstep step' hstep' heq
    obtain ⟨a, _, hmem⟩ := List.mem_flatMap.mp hstep
    obtain ⟨i, _, rfl⟩ := List.mem_map.mp hmem
    obtain ⟨key, _, rfl⟩ := List.mem_map.mp hstep'
    cases heq

/-- A sum over everything listed. -/
theorem sum_listing (f : α → Nat) (lists : Applicator → List α) (entries : OrderedMap α) :
    ((listing lists entries).map fun b => f b.2).sum =
      (Applicator.all.map fun a => ((lists a).map f).sum).sum +
        (entries.map fun e => f e.2).sum := by
  have hlists : ∀ a, ((lists a).mapIdx fun i x => (Step.element a i, x)).map (fun b => f b.2) =
      (lists a).map f := by
    intro a
    apply List.ext_getElem?
    intro i
    simp only [List.getElem?_map, List.getElem?_mapIdx, Option.map_map]
    rfl
  simp only [listing, List.map_append, List.map_flatMap, hlists, List.sum_append, List.map_map]
  congr 1
  induction Applicator.all with
  | nil => rfl
  | cons a rest ih => simp [ih]

theorem length_listing (lists : Applicator → List α) (entries : OrderedMap α) :
    (listing lists entries).length =
      (Applicator.all.map fun a => (lists a).length).sum + entries.length := by
  simpa using sum_listing (fun _ => 1) lists entries

end Step

theorem View.handle?_eq (view : View) (step : Step) :
    view.handle? step = Step.lookup? view.handles view.properties step := by
  cases step <;> rfl

theorem View.branches_eq (view : View) :
    view.branches = Step.listing view.handles view.properties := rfl

end ApiSchema
