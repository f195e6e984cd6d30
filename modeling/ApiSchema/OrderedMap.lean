/-!
Maps that remember the order in which their keys first appeared.

A repeated key keeps its first position and takes its last value. Two maps are compared without
regard to order by `OrderedMap.sameEntries`.
-/

namespace ApiSchema

/-- The entries of a map in order of first appearance. -/
abbrev OrderedMap (α : Type) := List (String × α)

namespace OrderedMap

variable {α : Type}

/-- Gives `key` the value `value`: in place if the key is there, at the end otherwise. -/
def insert (key : String) (value : α) : OrderedMap α → OrderedMap α
  | [] => [(key, value)]
  | (k, v) :: rest =>
    if k = key then (k, value) :: rest else (k, v) :: insert key value rest

/-- The value of `key`, if it has one. -/
def get? (key : String) : OrderedMap α → Option α
  | [] => none
  | (k, v) :: rest => if k = key then some v else get? key rest

def ofEntries (entries : List (String × α)) : OrderedMap α :=
  entries.foldl (fun map entry => insert entry.1 entry.2 map) []

def keys (map : OrderedMap α) : List String :=
  map.map Prod.fst

/-- Whether two maps hold equal values under the same keys, in whatever order. -/
def sameEntries (same : α → α → Bool) (a b : OrderedMap α) : Bool :=
  a.length == b.length &&
    a.all fun entry =>
      match get? entry.1 b with
      | some value => same entry.2 value
      | none => false

@[simp] theorem get?_nil (key : String) : get? key ([] : OrderedMap α) = none := rfl

theorem get?_insert_self (key : String) (value : α) (map : OrderedMap α) :
    get? key (insert key value map) = some value := by
  induction map with
  | nil => simp [insert, get?]
  | cons entry rest ih =>
    by_cases h : entry.1 = key <;> simp [insert, get?, h, ih]

theorem get?_insert_of_ne {key other : String} (h : other ≠ key) (value : α)
    (map : OrderedMap α) : get? other (insert key value map) = get? other map := by
  induction map with
  | nil => simp [insert, get?, Ne.symm h]
  | cons entry rest ih =>
    obtain ⟨k, v⟩ := entry
    by_cases hk : k = key
    · simp [insert, get?, hk, Ne.symm h]
    · by_cases ho : k = other
      · subst ho; simp [insert, get?, h]
      · simp [insert, get?, hk, ho, ih]

end OrderedMap

end ApiSchema
