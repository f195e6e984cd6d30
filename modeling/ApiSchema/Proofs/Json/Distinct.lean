import ApiSchema.Json.Value

/-!
Values in which no object repeats a key, and equality of values up to the order of members.
-/

namespace ApiSchema
namespace Json

/-- No object, at any depth, has two members with the same key. -/
inductive Distinct : Json → Prop
  | null : Distinct .null
  | bool (b : Bool) : Distinct (.bool b)
  | integer (i : Int) : Distinct (.integer i)
  | real (x : Binary64) : Distinct (.real x)
  | str (s : String) : Distinct (.str s)
  | arr {items : List Json} (distinct : ∀ item ∈ items, Distinct item) : Distinct (.arr items)
  | obj {members : OrderedMap Json} (keys : (OrderedMap.keys members).Nodup)
      (distinct : ∀ m ∈ members, Distinct m.2) : Distinct (.obj members)

mutual

/-- Whether no object, at any depth, has two members with the same key. -/
def distinct : Json → Bool
  | .arr items => distinctItems items
  | .obj members => decide (OrderedMap.keys members).Nodup && distinctMembers members
  | _ => true

def distinctItems : List Json → Bool
  | [] => true
  | item :: rest => distinct item && distinctItems rest

def distinctMembers : List (String × Json) → Bool
  | [] => true
  | (_, value) :: rest => distinct value && distinctMembers rest

end

mutual

theorem distinct_iff : (v : Json) → (v.distinct = true ↔ v.Distinct)
  | .null => iff_of_true rfl .null
  | .bool b => iff_of_true rfl (.bool b)
  | .integer i => iff_of_true rfl (.integer i)
  | .real x => iff_of_true rfl (.real x)
  | .str s => iff_of_true rfl (.str s)
  | .arr items => by
    rw [distinct, distinctItems_iff]
    exact ⟨.arr, fun | .arr h => h⟩
  | .obj members => by
    rw [distinct, Bool.and_eq_true, decide_eq_true_iff, distinctMembers_iff]
    exact ⟨fun h => .obj h.1 h.2, fun | .obj keys h => ⟨keys, h⟩⟩

theorem distinctItems_iff :
    (items : List Json) → (distinctItems items = true ↔ ∀ item ∈ items, item.Distinct)
  | [] => by simp [distinctItems]
  | item :: rest => by
    rw [distinctItems, Bool.and_eq_true, distinct_iff, distinctItems_iff, List.forall_mem_cons]

theorem distinctMembers_iff :
    (members : List (String × Json)) →
      (distinctMembers members = true ↔ ∀ m ∈ members, m.2.Distinct)
  | [] => by simp [distinctMembers]
  | (_, value) :: rest => by
    rw [distinctMembers, Bool.and_eq_true, distinct_iff, distinctMembers_iff, List.forall_mem_cons]

end

instance (v : Json) : Decidable v.Distinct :=
  decidable_of_iff _ v.distinct_iff

/-- Two values are alike if they are the same, or if they are objects that have the same keys, none
of them twice, and alike values under each. -/
inductive Alike : Json → Json → Prop
  | refl (v : Json) : Alike v v
  | obj {a b : OrderedMap Json} (left : (OrderedMap.keys a).Nodup)
      (right : (OrderedMap.keys b).Nodup)
      (keys : ∀ key, (OrderedMap.get? key a).isSome = (OrderedMap.get? key b).isSome)
      (values : ∀ key x y, OrderedMap.get? key a = some x → OrderedMap.get? key b = some y →
        Alike x y) : Alike (.obj a) (.obj b)

end Json
end ApiSchema
