import ApiSchema.Applicator
import ApiSchema.Source.Keyword
import ApiSchema.Json.Value
import ApiSchema.Pointer

/-!
Schema objects as written: every value is kept together with the places of its key and of itself.

A schema is a record with one optional field for each keyword; `Schema.get` and `Schema.ofFields`
see it as a table from keywords to fields. Nested schemas are not held inline. The type parameter
`C` is what stands in their place: the loader leaves a `Fragment` there, a store the address of a
child.
-/

namespace ApiSchema
namespace Source

/-- The value of a keyword with the places of key and value. A field made by hand has neither. -/
structure Field (α : Type) where
  value : α
  keyAt : Option Pointer
  valueAt : Option Pointer
deriving DecidableEq, Repr

namespace Field

variable {α β : Type}

/-- A field whose key and value stand at one place, as those of a loaded schema do. -/
def loaded (origin : Pointer) (value : α) : Field α :=
  ⟨value, some origin, some origin⟩

/-- A field that comes from no document. -/
def detached (value : α) : Field α :=
  ⟨value, none, none⟩

def map (f : α → β) (field : Field α) : Field β :=
  ⟨f field.value, field.keyAt, field.valueAt⟩

end Field

/-- An element of a list with its place. -/
structure Element (α : Type) where
  value : α
  origin : Pointer
deriving DecidableEq, Repr

/-- An entry of a map with the places of key and value. -/
structure Entry (α : Type) where
  key : String
  keyAt : Pointer
  value : α
  valueAt : Pointer
deriving DecidableEq, Repr

/-- How an instance chooses among alternatives. -/
structure Discriminator where
  propertyName : Option (Field String) := none
  mapping : List (Entry String) := []

/-- How an instance is written in XML. `qualifier` stands before the name of an element. -/
structure Xml where
  name : Option (Field String) := none
  uri : Option (Field String) := none
  qualifier : Option (Field String) := none
  asAttribute : Option (Field Bool) := none
  wrapped : Option (Field Bool) := none
  extensions : List (Entry Json) := []

/-- Where more documentation is found. -/
structure ExternalDocs where
  description : Option (Field String) := none
  url : Option (Field String) := none
  extensions : List (Entry Json) := []

/-- A nested schema left as raw document: where it stands, and its value. -/
structure Fragment where
  origin : Pointer
  value : Json

/-- A position among the nested schemas of a schema, counted in the order of the document. -/
inductive Position where
  | element (applicator : Applicator) (index : Nat)
  | property (index : Nat)
deriving DecidableEq, Repr

end Source

open Source in
/-- The type that holds values of a shape, with `C` in place of nested schemas. -/
abbrev Shape.Value (C : Type) : Shape → Type
  | .text => String
  | .number => Binary64
  | .natural => Nat
  | .flag => Bool
  | .names => List (Element String)
  | .values => List (Element Json)
  | .schemas | .schemaOrSchemas => List (Element C)
  | .properties => List (Entry C)
  | .any => Json
  | .discriminator => Discriminator
  | .xml => Xml
  | .externalDocs => ExternalDocs

abbrev Keyword.Value (C : Type) (k : Keyword) : Type :=
  k.shape.Value C

namespace Source

/-- A schema object as written. An absent keyword is `none`. -/
structure Schema (C : Type) where
  title : Option (Field String) := none
  multipleOf : Option (Field Binary64) := none
  maximum : Option (Field Binary64) := none
  exclusiveMaximum : Option (Field Bool) := none
  minimum : Option (Field Binary64) := none
  exclusiveMinimum : Option (Field Bool) := none
  maxLength : Option (Field Nat) := none
  minLength : Option (Field Nat) := none
  pattern : Option (Field String) := none
  format : Option (Field String) := none
  maxItems : Option (Field Nat) := none
  minItems : Option (Field Nat) := none
  uniqueItems : Option (Field Bool) := none
  maxProperties : Option (Field Nat) := none
  minProperties : Option (Field Nat) := none
  required : Option (Field (List (Element String))) := none
  enumValues : Option (Field (List (Element Json))) := none
  typeName : Option (Field String) := none
  allOf : Option (Field (List (Element C))) := none
  oneOf : Option (Field (List (Element C))) := none
  anyOf : Option (Field (List (Element C))) := none
  not : Option (Field (List (Element C))) := none
  items : Option (Field (List (Element C))) := none
  properties : Option (Field (List (Entry C))) := none
  additionalProperties : Option (Field Json) := none
  description : Option (Field String) := none
  defaultValue : Option (Field Json) := none
  nullable : Option (Field Bool) := none
  discriminator : Option (Field Discriminator) := none
  readOnly : Option (Field Bool) := none
  writeOnly : Option (Field Bool) := none
  xml : Option (Field Xml) := none
  externalDocs : Option (Field ExternalDocs) := none
  sample : Option (Field Json) := none
  deprecated : Option (Field Bool) := none
  extensions : List (Entry Json) := []

namespace Schema

variable {C : Type}

/-- The field of a keyword. -/
def get (s : Schema C) : (k : Keyword) → Option (Field (k.Value C))
  | .title => s.title
  | .multipleOf => s.multipleOf
  | .maximum => s.maximum
  | .exclusiveMaximum => s.exclusiveMaximum
  | .minimum => s.minimum
  | .exclusiveMinimum => s.exclusiveMinimum
  | .maxLength => s.maxLength
  | .minLength => s.minLength
  | .pattern => s.pattern
  | .format => s.format
  | .maxItems => s.maxItems
  | .minItems => s.minItems
  | .uniqueItems => s.uniqueItems
  | .maxProperties => s.maxProperties
  | .minProperties => s.minProperties
  | .required => s.required
  | .enumValues => s.enumValues
  | .typeName => s.typeName
  | .allOf => s.allOf
  | .oneOf => s.oneOf
  | .anyOf => s.anyOf
  | .not => s.not
  | .items => s.items
  | .properties => s.properties
  | .additionalProperties => s.additionalProperties
  | .description => s.description
  | .defaultValue => s.defaultValue
  | .nullable => s.nullable
  | .discriminator => s.discriminator
  | .readOnly => s.readOnly
  | .writeOnly => s.writeOnly
  | .xml => s.xml
  | .externalDocs => s.externalDocs
  | .sample => s.sample
  | .deprecated => s.deprecated

/-- The schema with the given field for each keyword. -/
def ofFields (f : (k : Keyword) → Option (Field (k.Value C))) (extensions : List (Entry Json)) :
    Schema C where
  title := f .title
  multipleOf := f .multipleOf
  maximum := f .maximum
  exclusiveMaximum := f .exclusiveMaximum
  minimum := f .minimum
  exclusiveMinimum := f .exclusiveMinimum
  maxLength := f .maxLength
  minLength := f .minLength
  pattern := f .pattern
  format := f .format
  maxItems := f .maxItems
  minItems := f .minItems
  uniqueItems := f .uniqueItems
  maxProperties := f .maxProperties
  minProperties := f .minProperties
  required := f .required
  enumValues := f .enumValues
  typeName := f .typeName
  allOf := f .allOf
  oneOf := f .oneOf
  anyOf := f .anyOf
  not := f .not
  items := f .items
  properties := f .properties
  additionalProperties := f .additionalProperties
  description := f .description
  defaultValue := f .defaultValue
  nullable := f .nullable
  discriminator := f .discriminator
  readOnly := f .readOnly
  writeOnly := f .writeOnly
  xml := f .xml
  externalDocs := f .externalDocs
  sample := f .sample
  deprecated := f .deprecated
  extensions := extensions

@[simp] theorem get_ofFields (f : (k : Keyword) → Option (Field (k.Value C)))
    (extensions : List (Entry Json)) (k : Keyword) : (ofFields f extensions).get k = f k := by
  cases k <;> rfl

@[simp] theorem extensions_ofFields (f : (k : Keyword) → Option (Field (k.Value C)))
    (extensions : List (Entry Json)) : (ofFields f extensions).extensions = extensions := rfl

theorem ofFields_get (s : Schema C) : ofFields s.get s.extensions = s := rfl

/-- Two schemas with the same fields are the same. -/
theorem ext_get {a b : Schema C} (fields : ∀ k, a.get k = b.get k)
    (extensions : a.extensions = b.extensions) : a = b := by
  rw [← ofFields_get a, ← ofFields_get b, funext fields, extensions]

def traverseElements {D : Type} {m : Type → Type} [Monad m] (act : C → m D) :
    Option (Field (List (Element C))) → m (Option (Field (List (Element D))))
  | none => pure none
  | some field => do
    let elements ← field.value.mapM fun e => do return Element.mk (← act e.value) e.origin
    return some ⟨elements, field.keyAt, field.valueAt⟩

def traverseEntries {D : Type} {m : Type → Type} [Monad m] (act : C → m D) :
    Option (Field (List (Entry C))) → m (Option (Field (List (Entry D))))
  | none => pure none
  | some field => do
    let entries ← field.value.mapM fun e => do
      return Entry.mk e.key e.keyAt (← act e.value) e.valueAt
    return some ⟨entries, field.keyAt, field.valueAt⟩

/-- Replaces every nested schema, in a fixed order, by what an action makes of it. -/
def traverse {D : Type} {m : Type → Type} [Monad m] (act : C → m D) (s : Schema C) :
    m (Schema D) := do
  let allOf ← traverseElements act s.allOf
  let oneOf ← traverseElements act s.oneOf
  let anyOf ← traverseElements act s.anyOf
  let not ← traverseElements act s.not
  let items ← traverseElements act s.items
  let properties ← traverseEntries act s.properties
  return { s with allOf, oneOf, anyOf, not, items, properties }

/-- The field of an applicator. -/
def applied (s : Schema C) : Applicator → Option (Field (List (Element C)))
  | .allOf => s.allOf
  | .oneOf => s.oneOf
  | .anyOf => s.anyOf
  | .not => s.not
  | .items => s.items

def elements (s : Schema C) (a : Applicator) : List (Element C) :=
  match s.applied a with
  | some field => field.value
  | none => []

def entries (s : Schema C) : List (Entry C) :=
  match s.properties with
  | some field => field.value
  | none => []

def child? (s : Schema C) : Position → Option C
  | .element a index => (s.elements a)[index]?.map (·.value)
  | .property index => s.entries[index]?.map (·.value)

end Schema

end Source
end ApiSchema
