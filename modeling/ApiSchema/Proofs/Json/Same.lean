import ApiSchema.Proofs.Json.Distinct
import ApiSchema.Proofs.Pointer

/-!
Values that equal themselves.

Reals are compared as numbers, and a not-a-number equals nothing. There is no notation for one in a
JSON text, and numbers that are rounded never become one. Without one, a value in which no object
repeats a key equals itself.
-/

namespace ApiSchema
namespace Binary64

theorem magnitudeBits_le (num den : Nat) : magnitudeBits num den ≤ infinityBits := by
  unfold magnitudeBits
  split
  · exact Nat.zero_le _
  · exact Nat.min_le_right _ _

/-- Rounding gives a number, or infinity. -/
theorem isNan_ofRatio (sign : Bool) (num den : Nat) : (ofRatio sign num den).isNan = false := by
  have hbits := magnitudeBits_le num den
  have hsign : (if sign then signWeight else 0) = 0 ∨
      (if sign then signWeight else 0) = signWeight := by
    cases sign <;> simp
  rw [infinityBits, exponentWeight] at hbits
  rw [signWeight] at hsign
  have hnat : (ofRatio sign num den).bits.toNat =
      (if sign then signWeight else 0) + magnitudeBits num den := by
    refine UInt64.toNat_ofNat_of_lt' ?_
    show _ < 2 ^ 64
    rw [signWeight]
    omega
  simp only [isNan, exponentField, fraction, hnat, exponentWeight, signWeight,
    Bool.and_eq_false_iff, beq_eq_false_iff_ne, bne_eq_false_iff_eq]
  omega

end Binary64

namespace Json

mutual

def numeric : Json → Bool
  | .real x => !x.isNan
  | .arr items => numericItems items
  | .obj members => numericMembers members
  | _ => true

def numericItems : List Json → Bool
  | [] => true
  | item :: rest => numeric item && numericItems rest

def numericMembers : List (String × Json) → Bool
  | [] => true
  | (_, value) :: rest => numeric value && numericMembers rest

end

variable {v w : Json} {key : String} {items : List Json} {members : OrderedMap Json}

theorem numericItems_iff : numericItems items = true ↔ ∀ item ∈ items, item.numeric = true := by
  induction items with
  | nil => simp [numericItems]
  | cons item rest ih => rw [numericItems, Bool.and_eq_true, ih, List.forall_mem_cons]

theorem numericMembers_iff :
    numericMembers members = true ↔ ∀ m ∈ members, m.2.numeric = true := by
  induction members with
  | nil => simp [numericMembers]
  | cons member rest ih => rw [numericMembers, Bool.and_eq_true, ih, List.forall_mem_cons]

theorem numeric_below? (hv : v.numeric = true) (h : v.below? key = some w) : w.numeric = true := by
  cases v with
  | arr items =>
      obtain ⟨index, _, hitem⟩ := Option.bind_eq_some_iff.mp h
      exact numericItems_iff.mp hv w (List.mem_of_getElem? hitem)
  | obj members => exact numericMembers_iff.mp hv _ (OrderedMap.mem_of_get? h)
  | _ => cases h

/-- A number read from a value without not-a-numbers is none. -/
theorem isNan_number? {x : Binary64} (hv : v.numeric = true) (h : v.number? = some x) :
    x.isNan = false := by
  cases v with
  | integer i =>
      cases h
      exact Binary64.isNan_ofRatio _ _ _
  | real y =>
      cases h
      exact (Bool.not_eq_true' _).mp hv
  | _ => cases h

theorem sameItems_self (h : ∀ item ∈ items, item.same item = true) :
    sameItems items items = true := by
  induction items with
  | nil => rfl
  | cons item rest ih =>
      obtain ⟨hitem, hrest⟩ := List.forall_mem_cons.mp h
      rw [sameItems, hitem, ih hrest, Bool.and_self]

theorem sameMembers_of_get? {others : OrderedMap Json}
    (h : ∀ m ∈ members, ∃ other, OrderedMap.get? m.1 others = some other ∧ m.2.same other = true) :
    sameMembers members others = true := by
  induction members with
  | nil => rfl
  | cons member rest ih =>
      obtain ⟨⟨other, hother, hsame⟩, hrest⟩ := List.forall_mem_cons.mp h
      simp only [sameMembers, hother, hsame, ih hrest, Bool.and_self]

/-- A value equals itself, if no object in it repeats a key and every real is a number. -/
theorem same_self (hdistinct : v.Distinct) (hnumeric : v.numeric = true) : v.same v = true := by
  induction hdistinct with
  | null => rfl
  | bool b => simp [same]
  | integer i => simp [same]
  | real x => exact Binary64.numericEq_self ((Bool.not_eq_true' _).mp hnumeric)
  | str s => simp [same]
  | arr _ ih =>
      have hitems := numericItems_iff.mp hnumeric
      exact sameItems_self fun item hitem => ih item hitem (hitems item hitem)
  | @obj members keys _ ih =>
      have hmembers := numericMembers_iff.mp hnumeric
      rw [same, beq_self_eq_true, Bool.true_and]
      refine sameMembers_of_get? fun m hm => ⟨m.2, ?_, ih m hm (hmembers m hm)⟩
      exact OrderedMap.get?_of_mem keys hm

end Json

/-- A part of a value without not-a-numbers has none either. -/
theorem Pointer.resolve?_numeric {p : Pointer} {v w : Json} (hv : v.numeric = true)
    (h : p.resolve? v = some w) : w.numeric = true :=
  resolve?_of_below? (fun _ _ _ hnumeric hbelow => Json.numeric_below? hnumeric hbelow) hv h

end ApiSchema
