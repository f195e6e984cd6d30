import ApiSchema.OrderedMap

/-!
Looking up keys in ordered maps.

A lookup gives the first entry of a key. In a map whose keys are distinct there is no other, so the
entries can be told from the lookups.
-/

namespace ApiSchema
namespace OrderedMap

variable {α β : Type} {key : String} {value : α} {map : OrderedMap α}

theorem mem_of_get? (h : get? key map = some value) : (key, value) ∈ map := by
  induction map with
  | nil => cases h
  | cons entry rest ih =>
      simp only [get?] at h
      split at h
      next hkey =>
        cases h
        exact hkey ▸ List.mem_cons_self
      next => exact List.mem_cons_of_mem _ (ih h)

theorem get?_isSome : (get? key map).isSome = true ↔ key ∈ keys map := by
  induction map with
  | nil => simp [keys]
  | cons entry rest ih =>
      by_cases hkey : entry.1 = key
      · simp [get?, keys, hkey]
      · simpa [get?, keys, hkey, Ne.symm hkey] using ih

theorem get?_eq_none : get? key map = none ↔ key ∉ keys map := by
  rw [← get?_isSome, Option.not_isSome_iff_eq_none]

/-- With distinct keys, every entry is found. -/
theorem get?_of_mem (hkeys : (keys map).Nodup) (hmem : (key, value) ∈ map) :
    get? key map = some value := by
  induction map with
  | nil => cases hmem
  | cons entry rest ih =>
      obtain ⟨hfirst, hrest⟩ := List.nodup_cons.mp hkeys
      rcases List.mem_cons.mp hmem with rfl | hmem
      · exact if_pos rfl
      · have hne : entry.1 ≠ key := by
          rintro rfl
          exact hfirst (List.mem_map.mpr ⟨_, hmem, rfl⟩)
        simp only [get?, if_neg hne]
        exact ih hrest hmem

theorem get?_append (key : String) (a b : OrderedMap α) :
    get? key (a ++ b) = (get? key a).or (get? key b) := by
  induction a with
  | nil => rfl
  | cons entry rest ih =>
      by_cases hkey : entry.1 = key
      · simp [get?, hkey]
      · simp [get?, hkey, ih]

theorem get?_filter (test : String → Bool) (key : String) (map : OrderedMap α) :
    get? key (map.filter fun e => test e.1) = if test key then get? key map else none := by
  induction map with
  | nil => simp
  | cons entry rest ih =>
      by_cases hkey : entry.1 = key
      · subst hkey
        by_cases htest : test entry.1 = true <;> simp_all [get?]
      · by_cases htest : test entry.1 = true <;> simp_all [get?]

theorem mem_insert {entry : String × α}
    (h : entry ∈ insert key value map) : entry ∈ map ∨ entry = (key, value) := by
  induction map with
  | nil => exact Or.inr (List.mem_singleton.mp h)
  | cons first rest ih =>
      rw [insert] at h
      split at h
      next hkey =>
        rcases List.mem_cons.mp h with rfl | hrest
        · exact Or.inr (by rw [hkey])
        · exact Or.inl (List.mem_cons_of_mem _ hrest)
      next =>
        rcases List.mem_cons.mp h with rfl | hrest
        · exact Or.inl List.mem_cons_self
        · exact (ih hrest).imp_left (List.mem_cons_of_mem _)

theorem keys_insert_subset (key : String) (value : α) (map : OrderedMap α) :
    ∀ other ∈ keys (insert key value map), other ∈ keys map ∨ other = key := by
  intro other hother
  obtain ⟨entry, hentry, rfl⟩ := List.mem_map.mp hother
  rcases mem_insert hentry with hold | rfl
  · exact Or.inl (List.mem_map_of_mem hold)
  · exact Or.inr rfl

/-- Keys stay distinct when one is given a value. -/
theorem nodup_keys_insert (hkeys : (keys map).Nodup) : (keys (insert key value map)).Nodup := by
  induction map with
  | nil => simp [insert, keys]
  | cons entry rest ih =>
      obtain ⟨hfirst, hrest⟩ := List.nodup_cons.mp hkeys
      rw [insert]
      split
      next => exact List.nodup_cons.mpr ⟨hfirst, hrest⟩
      next hkey =>
        refine List.nodup_cons.mpr ⟨fun hmem => ?_, ih hrest⟩
        rcases keys_insert_subset key value rest _ hmem with hold | heq
        · exact hfirst hold
        · exact hkey heq

/-- The entries that have a new value, in order. -/
def select (f : String → α → Option β) (map : OrderedMap α) : OrderedMap β :=
  map.filterMap fun e => (f e.1 e.2).map fun value => (e.1, value)

theorem keys_select_sublist (f : String → α → Option β) (map : OrderedMap α) :
    (keys (select f map)).Sublist (keys map) := by
  induction map with
  | nil => exact List.Sublist.refl _
  | cons entry rest ih =>
      cases hvalue : f entry.1 entry.2 with
      | none => simpa [select, keys, hvalue] using ih.cons entry.1
      | some value => simpa [select, keys, hvalue] using ih.cons_cons entry.1

theorem nodup_keys_select (f : String → α → Option β) (hkeys : (keys map).Nodup) :
    (keys (select f map)).Nodup :=
  hkeys.sublist (keys_select_sublist f map)

theorem get?_select (f : String → α → Option β) (hkeys : (keys map).Nodup) (key : String) :
    get? key (select f map) = (get? key map).bind (f key) := by
  induction map with
  | nil => rfl
  | cons entry rest ih =>
      obtain ⟨hfirst, hrest⟩ := List.nodup_cons.mp hkeys
      have ih := ih hrest
      by_cases hkey : entry.1 = key
      · subst hkey
        have hnone : get? entry.1 (select f rest) = none := by
          rw [ih, get?_eq_none.mpr hfirst]
          rfl
        cases hvalue : f entry.1 entry.2 with
        | none => simpa [select, get?, hvalue] using hnone
        | some value => simp [select, get?, hvalue]
      · cases hvalue : f entry.1 entry.2 with
        | none => simpa [select, get?, hvalue, hkey] using ih
        | some value => simpa [select, get?, hvalue, hkey] using ih

end OrderedMap
end ApiSchema
