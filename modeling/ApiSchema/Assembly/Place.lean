/-!
How units of work are numbered.

The units of an assembly are the elements of each slot in turn and then the properties.
`Place.locate` finds the element or property that a unit number stands for by passing over whole
slots.
-/

namespace ApiSchema
namespace Assembly

/-- What a unit works on. -/
inductive Place where
  /-- An element of a slot. -/
  | element (slot index : Nat)
  /-- A property. -/
  | property (index : Nat)
deriving DecidableEq, Repr

namespace Place

/-- The place of a unit among slots of the given lengths, the first of which has number `slot`. -/
def locateFrom (slot : Nat) : (lengths : List Nat) → (unit : Nat) → Place
  | [], unit => .property unit
  | length :: rest, unit =>
    if unit < length then .element slot unit else locateFrom (slot + 1) rest (unit - length)

/-- The place of a unit among slots of the given lengths. -/
def locate (lengths : List Nat) (unit : Nat) : Place :=
  locateFrom 0 lengths unit

example : (List.range 6).map (locate [2, 1]) =
    [.element 0 0, .element 0 1, .element 1 0, .property 0, .property 1, .property 2] := by decide

end Place

end Assembly
end ApiSchema
