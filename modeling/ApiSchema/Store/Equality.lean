import ApiSchema.Source.Equality
import ApiSchema.Store.Basic

/-!
Equality of schemas and children in a store.

Two children are equal when they stand at the same place and take their schemas from equal sources:
both from the same or equal schemas, or both from equal fragments. Whether a fragment has been built
plays no part.
-/

namespace ApiSchema
namespace Store

/-- Equality of children. Each descent from a child to the schema it was made from leads to an older
address, so `depth` many suffice when it is the number of addresses. -/
def sameChildWithin (store : Store) : (depth : Nat) → ChildId → ChildId → Bool
  | 0, _, _ => false
  | depth + 1, a, b =>
    let x := store.child a
    let y := store.child b
    x.origin == y.origin &&
      match x.content, y.content with
      | .built s, .built t =>
        s == t || (store.schema s).same (store.sameChildWithin depth) (store.schema t)
      | .deferred f _, .deferred g _ => f.same g
      | _, _ => false

def sameChild (store : Store) (a b : ChildId) : Bool :=
  store.sameChildWithin (store.cells.size + 1) a b

def sameSchema (store : Store) (a b : SchemaId) : Bool :=
  (store.schema a).same store.sameChild (store.schema b)

end Store
end ApiSchema
