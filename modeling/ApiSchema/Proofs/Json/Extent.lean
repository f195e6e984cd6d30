import ApiSchema.Proofs.Pointer
import Mathlib.Algebra.GroupWithZero.Nat

/-!
How large a value is and how deep it goes.

`Json.size` counts the values in a value, itself included, and `Json.depth` the levels of arrays and
objects. What a pointer leads to is no larger than the document, and with every step down there is
at least one level less.
-/

namespace ApiSchema
namespace Json

mutual

/-- The number of values in a value, itself included. -/
def size : Json → Nat
  | .arr items => sizeItems items + 1
  | .obj members => sizeMembers members + 1
  | _ => 1

def sizeItems : List Json → Nat
  | [] => 0
  | item :: rest => size item + sizeItems rest

def sizeMembers : List (String × Json) → Nat
  | [] => 0
  | (_, value) :: rest => size value + sizeMembers rest

end

mutual

/-- How many arrays and objects stand inside one another. -/
def depth : Json → Nat
  | .arr items => depthItems items + 1
  | .obj members => depthMembers members + 1
  | _ => 0

def depthItems : List Json → Nat
  | [] => 0
  | item :: rest => max (depth item) (depthItems rest)

def depthMembers : List (String × Json) → Nat
  | [] => 0
  | (_, value) :: rest => max (depth value) (depthMembers rest)

end

variable {v w : Json} {key : String} {items : List Json} {members : OrderedMap Json}

theorem one_le_size (v : Json) : 1 ≤ v.size := by
  cases v <;> simp [size]

theorem sizeItems_eq (items : List Json) : sizeItems items = (items.map size).sum := by
  induction items with
  | nil => rfl
  | cons item rest ih => rw [sizeItems, ih, List.map_cons, List.sum_cons]

theorem sizeMembers_eq (members : OrderedMap Json) :
    sizeMembers members = (members.map fun m => size m.2).sum := by
  induction members with
  | nil => rfl
  | cons member rest ih => rw [sizeMembers, ih, List.map_cons, List.sum_cons]

theorem size_le_sizeItems (h : v ∈ items) : v.size ≤ sizeItems items := by
  induction items with
  | nil => cases h
  | cons item rest ih =>
      rw [sizeItems]
      rcases List.mem_cons.mp h with rfl | h
      · exact Nat.le_add_right _ _
      · exact Nat.le_add_left_of_le (ih h)

theorem size_le_sizeMembers (h : (key, v) ∈ members) : v.size ≤ sizeMembers members := by
  induction members with
  | nil => cases h
  | cons member rest ih =>
      rw [sizeMembers]
      rcases List.mem_cons.mp h with rfl | h
      · exact Nat.le_add_right _ _
      · exact Nat.le_add_left_of_le (ih h)

theorem depth_le_depthItems (h : v ∈ items) : v.depth ≤ depthItems items := by
  induction items with
  | nil => cases h
  | cons item rest ih =>
      rw [depthItems]
      rcases List.mem_cons.mp h with rfl | h
      · exact Nat.le_max_left _ _
      · exact Nat.le_trans (ih h) (Nat.le_max_right _ _)

theorem depth_le_depthMembers (h : (key, v) ∈ members) : v.depth ≤ depthMembers members := by
  induction members with
  | nil => cases h
  | cons member rest ih =>
      rw [depthMembers]
      rcases List.mem_cons.mp h with rfl | h
      · exact Nat.le_max_left _ _
      · exact Nat.le_trans (ih h) (Nat.le_max_right _ _)

/-- A part of a value is no larger, and it has a level less. -/
theorem below?_extent (h : v.below? key = some w) : w.size ≤ v.size ∧ w.depth < v.depth := by
  cases v with
  | arr items =>
      obtain ⟨index, _, hitem⟩ := Option.bind_eq_some_iff.mp h
      have hmem := List.mem_of_getElem? hitem
      exact ⟨Nat.le_succ_of_le (size_le_sizeItems hmem),
        Nat.lt_succ_of_le (depth_le_depthItems hmem)⟩
  | obj members =>
      have hmem := OrderedMap.mem_of_get? h
      exact ⟨Nat.le_succ_of_le (size_le_sizeMembers hmem),
        Nat.lt_succ_of_le (depth_le_depthMembers hmem)⟩
  | _ => cases h

def sizeAt (key : String) (members : OrderedMap Json) : Nat :=
  ((OrderedMap.get? key members).map size).getD 0

theorem sizeAt_cons (key first : String) (value : Json) (rest : OrderedMap Json) :
    sizeAt key ((first, value) :: rest) = if first = key then value.size else sizeAt key rest := by
  by_cases h : first = key <;> simp [sizeAt, OrderedMap.get?, h]

/-- A member counts for one of some keys at most. -/
theorem sum_sizeAt_cons {keys : List String} (hkeys : keys.Nodup) (first : String) (value : Json)
    (rest : OrderedMap Json) :
    (keys.map fun key => sizeAt key ((first, value) :: rest)).sum ≤
      value.size + (keys.map fun key => sizeAt key rest).sum := by
  induction keys with
  | nil => exact Nat.zero_le _
  | cons key keys ih =>
      obtain ⟨hkey, hkeys⟩ := List.nodup_cons.mp hkeys
      have ih := ih hkeys
      rw [List.map_cons, List.sum_cons, List.map_cons, List.sum_cons, sizeAt_cons]
      split
      next heq =>
        have hothers : (keys.map fun other => sizeAt other ((first, value) :: rest)) =
            keys.map fun other => sizeAt other rest := by
          refine List.map_congr_left fun other hother => ?_
          rw [sizeAt_cons, if_neg]
          rintro rfl
          exact hkey (heq ▸ hother)
        rw [hothers]
        omega
      next => omega

/-- The members under some keys, no key taken twice, are together no larger than all members. -/
theorem sum_sizeAt_le {keys : List String} (hkeys : keys.Nodup) (members : OrderedMap Json) :
    (keys.map fun key => sizeAt key members).sum ≤ sizeMembers members := by
  induction members with
  | nil => simp [sizeAt, List.map_const']
  | cons member rest ih =>
      exact Nat.le_trans (sum_sizeAt_cons hkeys member.1 member.2 rest) (Nat.add_le_add_left ih _)

end Json

theorem Pointer.resolve?_size {p : Pointer} {v w : Json} (h : p.resolve? v = some w) :
    w.size ≤ v.size :=
  resolve?_of_below? (fun _ _ _ hsize hbelow => Nat.le_trans (Json.below?_extent hbelow).1 hsize)
    (Nat.le_refl v.size) h

end ApiSchema
