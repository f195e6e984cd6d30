import ApiSchema.Source.Loader

/-!
The store: every schema and every child that exists, by address.

A child stands for a nested schema. It was either made from a schema that is already in the store,
or it is deferred: it holds a raw fragment and is built when first asked for its schema. The result
of building, schema or error, is kept and given again ever after. Addresses are handed out in order
and never reused, so a schema's children are always older than the schema, and a child made from a
schema is younger than that schema.
-/

namespace ApiSchema

/-- The address of a schema. Two schemas are the same object when their addresses are equal. -/
structure SchemaId where
  address : Nat
deriving DecidableEq, Repr

/-- The address of a child. -/
structure ChildId where
  address : Nat
deriving DecidableEq, Repr

/-- Where a child takes its schema from. -/
inductive Content where
  /-- A schema that was there before. -/
  | built (schema : SchemaId)
  /-- A raw fragment, and the result of building it once that has been tried. -/
  | deferred (fragment : Json) (result : Option (Except LoadError SchemaId))

/-- A handle on a nested schema. -/
structure Child where
  origin : Pointer
  content : Content

/-- What an address holds. -/
inductive Cell where
  | schema (schema : Source.Schema ChildId)
  | child (child : Child)

/-- All schemas and children. -/
structure Store where
  cells : Array Cell := #[]

namespace Child

/-- The fragment behind a deferred child. -/
def fragment? (c : Child) : Option Source.Fragment :=
  match c.content with
  | .built _ => none
  | .deferred fragment _ => some ⟨c.origin, fragment⟩

/-- The target of a child that is a reference. A child made from a schema never is. -/
def reference? (c : Child) : Option String := do
  (← c.fragment?).reference?

/-- Whether the schema behind the child is settled, even if as an error. -/
def isBuilt (c : Child) : Bool :=
  match c.content with
  | .built _ => true
  | .deferred _ result => result.isSome

end Child

namespace Store

def schema? (store : Store) (id : SchemaId) : Option (Source.Schema ChildId) :=
  match store.cells[id.address]? with
  | some (.schema s) => some s
  | _ => none

def child? (store : Store) (id : ChildId) : Option Child :=
  match store.cells[id.address]? with
  | some (.child c) => some c
  | _ => none

/-- The schema at an address, empty where there is none. -/
def schema (store : Store) (id : SchemaId) : Source.Schema ChildId :=
  (store.schema? id).getD {}

/-- The child at an address, a deferred `null` where there is none. -/
def child (store : Store) (id : ChildId) : Child :=
  (store.child? id).getD ⟨.root, .deferred .null none⟩

def addSchema (s : Source.Schema ChildId) : StateM Store SchemaId :=
  fun store => (⟨store.cells.size⟩, { store with cells := store.cells.push (.schema s) })

def addChild (c : Child) : StateM Store ChildId :=
  fun store => (⟨store.cells.size⟩, { store with cells := store.cells.push (.child c) })

/-- A deferred child for a fragment. -/
def addFragment (fragment : Source.Fragment) : StateM Store ChildId :=
  addChild ⟨fragment.origin, .deferred fragment.value none⟩

/-- Stores a loaded schema: a deferred child for each nested schema, then the schema itself. -/
def add (s : Source.Schema Source.Fragment) : StateM Store SchemaId := do
  addSchema (← s.traverse addFragment)

/-- Changes what a child takes its schema from. -/
def setContent (id : ChildId) (content : Content) : StateM Store Unit :=
  fun store =>
    match store.child? id with
    | some c =>
      ((), { store with
        cells := store.cells.setIfInBounds id.address (.child { c with content }) })
    | none => ((), store)

/-- The schema of a child. A deferred child is built by the first call and keeps the result. -/
def schemaOf (id : ChildId) : StateM Store (Except LoadError SchemaId) := do
  let c := (← get).child id
  match c.content with
  | .built schema => return .ok schema
  | .deferred _ (some result) => return result
  | .deferred fragment none =>
    let result ← match Source.Fragment.build ⟨c.origin, fragment⟩ with
      | .error e => pure (.error e)
      | .ok s => do pure (.ok (← add s))
    setContent id (.deferred fragment (some result))
    return result

/-- A second schema with the same fields, sharing the children of the first. -/
def copy (id : SchemaId) : StateM Store SchemaId := do
  addSchema ((← get).schema id)

end Store

end ApiSchema
