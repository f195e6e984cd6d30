import ApiSchema.OrderedMap
import ApiSchema.Binary64.Basic

/-!
JSON values with ordered objects.

An object keeps its members in order of first appearance. Integers and binary64 numbers are told
apart: `1` and `1.0` are different values. `Json.same` compares values without regard to the order
of object members, at any depth.
-/

namespace ApiSchema

/-- A JSON value. Documents hold integers from `-2^63` to `2^64 - 1`; any other number is a `real`.
-/
inductive Json where
  | null
  | bool (b : Bool)
  | integer (i : Int)
  | real (x : Binary64)
  | str (s : String)
  | arr (items : List Json)
  | obj (members : List (String × Json))
deriving Inhabited, Repr

namespace Json

mutual

/-- Equality of values in which the members of an object may stand in any order. Integers equal
integers only, and reals compare as numbers. -/
def same : Json → Json → Bool
  | .null, .null => true
  | .bool a, .bool b => a == b
  | .integer a, .integer b => a == b
  | .real a, .real b => a.numericEq b
  | .str a, .str b => a == b
  | .arr a, .arr b => sameItems a b
  | .obj a, .obj b => a.length == b.length && sameMembers a b
  | _, _ => false

def sameItems : List Json → List Json → Bool
  | [], [] => true
  | a :: as, b :: bs => same a b && sameItems as bs
  | _, _ => false

/-- Whether every member has an equal partner under the same key among `others`. -/
def sameMembers : List (String × Json) → List (String × Json) → Bool
  | [], _ => true
  | (key, value) :: rest, others =>
    (match OrderedMap.get? key others with
      | some other => same value other
      | none => false) && sameMembers rest others

end

/-- The member called `key`, if this is an object that has one. -/
def member? (key : String) : Json → Option Json
  | .obj members => OrderedMap.get? key members
  | _ => none

def string? : Json → Option String
  | .str s => some s
  | _ => none

def bool? : Json → Option Bool
  | .bool b => some b
  | _ => none

/-- The binary64 number nearest to a number. -/
def number? : Json → Option Binary64
  | .integer i => some (Binary64.ofInt i)
  | .real x => some x
  | _ => none

/-- The value of a non-negative integer. A real is none, whatever its value. -/
def natural? : Json → Option Nat
  | .integer (.ofNat n) => some n
  | _ => none

def array? : Json → Option (List Json)
  | .arr items => some items
  | _ => none

def object? : Json → Option (List (String × Json))
  | .obj members => some members
  | _ => none

def isObject : Json → Bool
  | .obj _ => true
  | _ => false

end Json

end ApiSchema
