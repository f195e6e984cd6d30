import ApiSchema.Store.Basic
import ApiSchema.Text.Quoted

/-!
Describing a child in one line, without looking at its schema.
-/

namespace ApiSchema

/-- Where the child stands, whether its schema is settled and, for a reference, its target. -/
def Child.description (c : Child) : String :=
  "SchemaProxy \x7b node: Node \x7b pointer: " ++ Text.quoted c.origin.text ++ " \x7d, built: " ++
    (if c.isBuilt then "true" else "false") ++
    (match c.reference? with
      | some reference => ", reference: " ++ Text.quoted reference
      | none => "") ++ " \x7d"

end ApiSchema
