import ApiSchema.Yaml.Tag

/-!
The tokens of a YAML text.

Indentation shows as tokens that open and close block collections, and a mapping key that is written
without an indicator is preceded by a `key` token all the same.
-/

namespace ApiSchema
namespace Yaml

inductive Token where
  /-- A `%YAML` directive. -/
  | version (major minor : Nat)
  /-- A `%TAG` directive. -/
  | tagDirective (handle : String) (expansion : Tag)
  | documentStart
  | documentEnd
  | blockSequenceStart
  | blockMappingStart
  /-- The end of the innermost block collection. -/
  | blockEnd
  | flowSequenceStart
  | flowSequenceEnd
  | flowMappingStart
  | flowMappingEnd
  /-- The `-` before an item of a block sequence. -/
  | blockEntry
  /-- The `,` between items of a flow collection. -/
  | flowEntry
  | key
  | value
  | alias (name : String)
  | anchor (name : String)
  | tag (handle : String) (suffix : Tag)
  /-- A scalar; `plain` when it stands without quotes and not in a block. -/
  | scalar (text : String) (plain : Bool)
  | streamEnd
deriving DecidableEq, Repr

end Yaml
end ApiSchema
