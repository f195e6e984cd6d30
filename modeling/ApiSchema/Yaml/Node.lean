import ApiSchema.Yaml.Tag

/-!
The tree that a YAML document describes.

Aliases stand in the tree as they are written. What they and anchors refer to each other by is left
open: names in a tree just read, numbers once aliases have been matched to anchors.
-/

namespace ApiSchema
namespace Yaml

/-- A node whose anchors and aliases are of type `R`. -/
inductive Node (R : Type) where
  | alias (target : R)
  /-- A scalar; `plain` when it stands without quotes and not in a block. -/
  | scalar (anchor : Option R) (tag : Option Tag) (plain : Bool) (text : String)
  | sequence (anchor : Option R) (tag : Option Tag) (items : List (Node R))
  | mapping (anchor : Option R) (tag : Option Tag) (pairs : List (Node R × Node R))
deriving Inhabited

namespace Node

variable {R : Type}

/-- The scalar that stands where nothing is written. -/
def nothing (anchor : Option R) (tag : Option Tag) : Node R :=
  .scalar anchor tag true ""

mutual

/-- The number of events in reading a node: one for a scalar or alias, and one each for the start
and the end of a collection. -/
def events : Node R → Nat
  | .alias _ => 1
  | .scalar .. => 1
  | .sequence _ _ items => 2 + itemEvents items
  | .mapping _ _ pairs => 2 + pairEvents pairs

def itemEvents : List (Node R) → Nat
  | [] => 0
  | item :: rest => events item + itemEvents rest

def pairEvents : List (Node R × Node R) → Nat
  | [] => 0
  | (key, value) :: rest => events key + events value + pairEvents rest

end

end Node

end Yaml
end ApiSchema
