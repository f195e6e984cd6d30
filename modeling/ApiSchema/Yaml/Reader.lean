import ApiSchema.Yaml.Anchor
import ApiSchema.Yaml.Grammar
import ApiSchema.Yaml.Lexer
import ApiSchema.Yaml.Resolution

/-!
Reading a YAML text as a JSON value.

The text holds at most one document; none at all is `null`. Keys of mappings are the texts of their
scalars. Aliases are followed, but no more often than a hundred times for each event of the
document, and collections may be nested up to `nestingLimit` deep, counted after aliases have been
followed.
-/

namespace ApiSchema
namespace Yaml

/-- One more nested collection than this is too many. -/
def nestingLimit : Nat := 128

namespace Document

def aliasLimit (d : Document) : Nat :=
  d.root.events * 100

/-- The node itself, or the one that an alias stands for. The state counts the aliases followed. -/
def follow (d : Document) : Node Nat → StateT Nat Option (Node Nat)
  | .alias n => do
    let followed := (← get) + 1
    set followed
    if d.aliasLimit < followed then failure
    else match d.targets.lookup n with
      | some node => return node
      | none => failure
  | node => return node

/-- The key that a node stands for. -/
def key (d : Document) (node : Node Nat) : StateT Nat Option String := do
  match ← d.follow node with
  | .scalar _ _ _ text => return text
  | _ => failure

/-- The value that a node stands for, with room for `depth` nested collections. -/
def value (d : Document) : (depth : Nat) → Node Nat → StateT Nat Option Json
  | depth, node => do
    match ← d.follow node with
    | .alias _ => failure
    | .scalar _ tag plain text =>
      match scalarValue tag plain text with
      | some value => return value
      | none => failure
    | .sequence _ tag items =>
      match depth with
      | 0 => failure
      | depth + 1 =>
        if tag.any Tag.isLocal then failure
        else return .arr (← items.mapM (d.value depth))
    | .mapping _ tag pairs =>
      match depth with
      | 0 => failure
      | depth + 1 =>
        if tag.any Tag.isLocal then failure
        else
          let members ← pairs.mapM fun (key, value) => do
            let key ← d.key key
            return (key, ← d.value depth value)
          return .obj (OrderedMap.ofEntries members)

end Document

/-- The value that a YAML text stands for, if it stands for one. -/
def parse? (text : String) : Option Json := do
  match ← readDocument (← tokens? text).toList with
  | none => return .null
  | some node =>
    let d ← Document.ofNode? node
    let (value, _) ← (d.value nestingLimit d.root).run 0
    return value

end Yaml
end ApiSchema
