import ApiSchema.Assembly.Board
import Mathlib.Algebra.BigOperators.Group.List.Basic
import Mathlib.Algebra.GroupWithZero.Nat

/-!
Units of work and places correspond one to one.

`Place.unit` is the number of the unit that works on a place. It inverts `Place.locate` on the
places that there are, so no two units work on the same place and every place has its unit.
-/

namespace ApiSchema
namespace Assembly
namespace Place

/-- The unit of a place among slots of the given lengths. -/
def unit (lengths : List Nat) : Place → Nat
  | .element slot index => (lengths.take slot).sum + index
  | .property index => lengths.sum + index

/-- The slot numbers of a place, counted from a later slot on. -/
def shift (offset : Nat) : Place → Place
  | .element slot index => .element (slot + offset) index
  | .property index => .property index

theorem locateFrom_eq (slot : Nat) (lengths : List Nat) (u : Nat) :
    locateFrom slot lengths u = (locate lengths u).shift slot := by
  induction lengths generalizing slot u with
  | nil => rfl
  | cons length rest ih =>
      simp only [locate, locateFrom]
      by_cases hlt : u < length
      · simp [hlt, shift]
      · rw [if_neg hlt, if_neg hlt, ih (slot + 1), ih (0 + 1)]
        cases locate rest (u - length) <;> simp [shift, Nat.add_comm, Nat.add_left_comm]

theorem locate_cons (length : Nat) (rest : List Nat) (u : Nat) :
    locate (length :: rest) u =
      if u < length then .element 0 u else (locate rest (u - length)).shift 1 := by
  simp only [locate, locateFrom]
  rw [locateFrom_eq]
  rfl

theorem unit_shift (length : Nat) (rest : List Nat) (place : Place) :
    (place.shift 1).unit (length :: rest) = length + place.unit rest := by
  cases place <;> simp [shift, unit, Nat.add_assoc]

/-- The unit of the place that a unit works on is that unit. -/
theorem unit_locate (lengths : List Nat) (u : Nat) : (locate lengths u).unit lengths = u := by
  induction lengths generalizing u with
  | nil => simp [locate, locateFrom, unit]
  | cons length rest ih =>
      rw [locate_cons]
      by_cases hlt : u < length
      · simp [hlt, unit]
      · rw [if_neg hlt, unit_shift, ih]
        omega

/-- No two units work on the same place. -/
theorem locate_injective {lengths : List Nat} {u v : Nat}
    (h : locate lengths u = locate lengths v) : u = v := by
  rw [← unit_locate lengths u, h, unit_locate]

/-- The places among slots of the given lengths and some number of properties. -/
def Within (lengths : List Nat) (properties : Nat) : Place → Prop
  | .element slot index => ∃ length, lengths[slot]? = some length ∧ index < length
  | .property index => index < properties

theorem within_shift {length : Nat} {rest : List Nat} {properties : Nat} {place : Place} :
    (place.shift 1).Within (length :: rest) properties ↔ place.Within rest properties := by
  cases place <;> simp [shift, Within]

/-- Every unit works on a place that there is. -/
theorem locate_within {lengths : List Nat} {properties u : Nat}
    (hu : u < lengths.sum + properties) : (locate lengths u).Within lengths properties := by
  induction lengths generalizing u with
  | nil => simpa [locate, locateFrom, Within] using hu
  | cons length rest ih =>
      rw [locate_cons]
      rw [List.sum_cons] at hu
      by_cases hlt : u < length
      · simp [hlt, Within]
      · rw [if_neg hlt, within_shift]
        exact ih (by omega)

/-- Every place has its unit. -/
theorem exists_unit {lengths : List Nat} {properties : Nat} {place : Place}
    (hplace : place.Within lengths properties) :
    ∃ u < lengths.sum + properties, locate lengths u = place := by
  induction lengths generalizing place with
  | nil =>
      cases place with
      | element slot index =>
          obtain ⟨length, hnone, _⟩ := hplace
          cases hnone
      | property index =>
          have hlt : index < properties := hplace
          exact ⟨index, by simpa using hlt, rfl⟩
  | cons length rest ih =>
      simp only [locate_cons, List.sum_cons]
      have hlater : ∀ place : Place, place.Within rest properties →
          ∃ u < length + rest.sum + properties,
            (if u < length then element 0 u else (locate rest (u - length)).shift 1) =
              place.shift 1 := by
        intro place hplace
        obtain ⟨u, hu, hlocate⟩ := ih hplace
        refine ⟨length + u, by omega, ?_⟩
        rw [if_neg (by omega), Nat.add_sub_cancel_left, hlocate]
      cases place with
      | element slot index =>
          cases slot with
          | zero =>
              obtain ⟨length', hlength, hindex⟩ := hplace
              cases hlength
              exact ⟨index, by omega, if_pos hindex⟩
          | succ slot => exact hlater (.element slot index) (by simpa [Within] using hplace)
      | property index => exact hlater (.property index) hplace

end Place

/-- Who reports to the latch: a slot once all its elements are done, and each property. -/
inductive Reporter where
  | slot (number : Nat)
  | property (index : Nat)
deriving DecidableEq

namespace Reporter

def kind : Reporter → Signal
  | slot _ => .slot
  | property _ => .property

def all (t : Task) : List Reporter :=
  (List.range t.slots.size).map slot ++ (List.range t.entries.size).map property

theorem length_all (t : Task) : (all t).length = t.expected := by
  simp [all, Task.expected]

theorem nodup_all (t : Task) : (all t).Nodup := by
  refine List.nodup_append.mpr ⟨?_, ?_, ?_⟩
  · exact List.Pairwise.map _ (fun _ _ hne heq => hne (Reporter.slot.inj heq)) List.nodup_range
  · exact List.Pairwise.map _ (fun _ _ hne heq => hne (Reporter.property.inj heq)) List.nodup_range
  · intro r hr r' hr'
    obtain ⟨slot, _, rfl⟩ := List.mem_map.mp hr
    obtain ⟨index, _, rfl⟩ := List.mem_map.mp hr'
    exact nofun

end Reporter

/-- The reporter that waits for a place. -/
def Place.reporter : Place → Reporter
  | .element slot _ => .slot slot
  | .property index => .property index

end Assembly
end ApiSchema
