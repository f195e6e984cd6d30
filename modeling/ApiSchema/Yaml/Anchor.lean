import ApiSchema.Yaml.Node

/-!
Matching aliases to anchors.

An anchor is numbered by how many different names there were before it, and an alias refers to the
number that its name has at that point. When a name is used again, it is renumbered but adds no
name, so that a later anchor can get the same number: the latest node with a number is the one that
its aliases stand for.
-/

namespace ApiSchema
namespace Yaml

/-- What is known while going through a document in order. -/
structure Anchors where
  /-- The current number of each name. -/
  names : List (String × Nat) := []
  /-- The serial number of the node that has a number, latest first. -/
  owners : List (Nat × Nat) := []
  /-- How many anchors there were. -/
  count : Nat := 0

namespace Anchors

/-- Gives a name a number and its node a serial number. -/
def define (a : Anchors) (name : String) : Nat × Anchors :=
  let number := a.names.length
  let names := (a.names.filter fun entry => entry.1 != name) ++ [(name, number)]
  (a.count, { names, owners := (number, a.count) :: a.owners, count := a.count + 1 })

/-- Numbers the anchor of a node, if it has one. -/
def define? : Option String → StateT Anchors Option (Option Nat)
  | none => return none
  | some name => modifyGet fun a => let (serial, a) := a.define name; (some serial, a)

mutual

/-- Replaces the names of anchors by serial numbers and those of aliases by the numbers of their
anchors. An alias before any anchor of its name is refused. -/
def number : Node String → StateT Anchors Option (Node Nat)
  | .alias name => do
    match (← get).names.lookup name with
    | some n => return .alias n
    | none => failure
  | .scalar anchor tag plain text => do return .scalar (← define? anchor) tag plain text
  | .sequence anchor tag items => do
    let anchor ← define? anchor
    return .sequence anchor tag (← numberItems items)
  | .mapping anchor tag pairs => do
    let anchor ← define? anchor
    return .mapping anchor tag (← numberPairs pairs)

def numberItems : List (Node String) → StateT Anchors Option (List (Node Nat))
  | [] => return []
  | item :: rest => do
    let item ← number item
    return item :: (← numberItems rest)

def numberPairs : List (Node String × Node String) →
    StateT Anchors Option (List (Node Nat × Node Nat))
  | [] => return []
  | (key, value) :: rest => do
    let key ← number key
    let value ← number value
    return (key, value) :: (← numberPairs rest)

end

end Anchors

namespace Node

mutual

def anchored : Node Nat → List (Nat × Node Nat)
  | .alias _ => []
  | .scalar anchor tag plain text =>
    (anchor.map fun n => (n, Node.scalar anchor tag plain text)).toList
  | .sequence anchor tag items =>
    (anchor.map fun n => (n, Node.sequence anchor tag items)).toList ++ anchoredItems items
  | .mapping anchor tag pairs =>
    (anchor.map fun n => (n, Node.mapping anchor tag pairs)).toList ++ anchoredPairs pairs

def anchoredItems : List (Node Nat) → List (Nat × Node Nat)
  | [] => []
  | item :: rest => anchored item ++ anchoredItems rest

def anchoredPairs : List (Node Nat × Node Nat) → List (Nat × Node Nat)
  | [] => []
  | (key, value) :: rest => anchored key ++ anchored value ++ anchoredPairs rest

end

end Node

/-- A document whose aliases can be followed. -/
structure Document where
  root : Node Nat
  /-- The node that each alias number stands for. -/
  targets : List (Nat × Node Nat)

/-- Matches the aliases of a tree to its anchors. -/
def Document.ofNode? (node : Node String) : Option Document := do
  let (root, anchors) ← (Anchors.number node).run {}
  let nodes := root.anchored
  let targets := anchors.owners.filterMap fun (number, serial) =>
    (nodes.lookup serial).map (number, ·)
  return ⟨root, targets⟩

end Yaml
end ApiSchema
