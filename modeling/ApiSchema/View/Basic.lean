import ApiSchema.Store.Basic

/-!
Views: schema objects as they are meant to be read.

A view holds plain values: a text, number or other value where the keyword is present, a flag that
is false when absent, lists and ordered maps that are empty when absent. Nested schemas are handles,
which lead back to the children of the source schema; the view remembers that source. `View.get` and
`View.ofValues` see a view as a table from keywords to values.
-/

namespace ApiSchema

/-- A lazy reference to a nested schema with the places of its key, if it has one, and of itself. -/
structure Handle where
  child : ChildId
  keyAt : Option Pointer
  valueAt : Option Pointer
deriving DecidableEq, Repr

namespace Handle

/-- The handle of a list element, which has no key. -/
def ofElement (e : Source.Element ChildId) : Handle :=
  ⟨e.value, none, some e.origin⟩

def ofEntry (e : Source.Entry ChildId) : Handle :=
  ⟨e.value, some e.keyAt, some e.valueAt⟩

end Handle

namespace View

/-- How an instance chooses among alternatives. -/
structure Discriminator where
  propertyName : Option String
  mapping : OrderedMap String

/-- How an instance is written in XML. -/
structure Xml where
  name : Option String
  uri : Option String
  qualifier : Option String
  asAttribute : Bool
  wrapped : Bool
  extensions : OrderedMap Json

/-- Where more documentation is found. -/
structure ExternalDocs where
  description : Option String
  url : Option String
  extensions : OrderedMap Json

end View

open View in
/-- The type in which a view holds the value of a shape. -/
abbrev Shape.Shown : Shape → Type
  | .text => Option String
  | .number => Option Binary64
  | .natural => Option Nat
  | .flag => Bool
  | .names => List String
  | .values => List String
  | .schemas | .schemaOrSchemas => List Handle
  | .properties => OrderedMap Handle
  | .any => Option Json
  | .discriminator => Option Discriminator
  | .xml => Option Xml
  | .externalDocs => Option ExternalDocs

abbrev Keyword.Shown (k : Keyword) : Type :=
  k.shape.Shown

open View in
/-- A schema object as it is meant to be read, with the schema it was made from. -/
structure View where
  source : SchemaId
  title : Option String := none
  multipleOf : Option Binary64 := none
  maximum : Option Binary64 := none
  exclusiveMaximum : Bool := false
  minimum : Option Binary64 := none
  exclusiveMinimum : Bool := false
  maxLength : Option Nat := none
  minLength : Option Nat := none
  pattern : Option String := none
  format : Option String := none
  maxItems : Option Nat := none
  minItems : Option Nat := none
  uniqueItems : Bool := false
  maxProperties : Option Nat := none
  minProperties : Option Nat := none
  required : List String := []
  enumValues : List String := []
  typeName : Option String := none
  allOf : List Handle := []
  oneOf : List Handle := []
  anyOf : List Handle := []
  not : List Handle := []
  items : List Handle := []
  properties : OrderedMap Handle := []
  additionalProperties : Option Json := none
  description : Option String := none
  defaultValue : Option Json := none
  nullable : Bool := false
  discriminator : Option Discriminator := none
  readOnly : Bool := false
  writeOnly : Bool := false
  xml : Option Xml := none
  externalDocs : Option ExternalDocs := none
  sample : Option Json := none
  deprecated : Bool := false
  extensions : OrderedMap Json := []

namespace View

def get (v : View) : (k : Keyword) → k.Shown
  | .title => v.title
  | .multipleOf => v.multipleOf
  | .maximum => v.maximum
  | .exclusiveMaximum => v.exclusiveMaximum
  | .minimum => v.minimum
  | .exclusiveMinimum => v.exclusiveMinimum
  | .maxLength => v.maxLength
  | .minLength => v.minLength
  | .pattern => v.pattern
  | .format => v.format
  | .maxItems => v.maxItems
  | .minItems => v.minItems
  | .uniqueItems => v.uniqueItems
  | .maxProperties => v.maxProperties
  | .minProperties => v.minProperties
  | .required => v.required
  | .enumValues => v.enumValues
  | .typeName => v.typeName
  | .allOf => v.allOf
  | .oneOf => v.oneOf
  | .anyOf => v.anyOf
  | .not => v.not
  | .items => v.items
  | .properties => v.properties
  | .additionalProperties => v.additionalProperties
  | .description => v.description
  | .defaultValue => v.defaultValue
  | .nullable => v.nullable
  | .discriminator => v.discriminator
  | .readOnly => v.readOnly
  | .writeOnly => v.writeOnly
  | .xml => v.xml
  | .externalDocs => v.externalDocs
  | .sample => v.sample
  | .deprecated => v.deprecated

/-- The view with the given value for each keyword. -/
def ofValues (source : SchemaId) (f : (k : Keyword) → k.Shown) (extensions : OrderedMap Json) :
    View where
  source := source
  title := f .title
  multipleOf := f .multipleOf
  maximum := f .maximum
  exclusiveMaximum := f .exclusiveMaximum
  minimum := f .minimum
  exclusiveMinimum := f .exclusiveMinimum
  maxLength := f .maxLength
  minLength := f .minLength
  pattern := f .pattern
  format := f .format
  maxItems := f .maxItems
  minItems := f .minItems
  uniqueItems := f .uniqueItems
  maxProperties := f .maxProperties
  minProperties := f .minProperties
  required := f .required
  enumValues := f .enumValues
  typeName := f .typeName
  allOf := f .allOf
  oneOf := f .oneOf
  anyOf := f .anyOf
  not := f .not
  items := f .items
  properties := f .properties
  additionalProperties := f .additionalProperties
  description := f .description
  defaultValue := f .defaultValue
  nullable := f .nullable
  discriminator := f .discriminator
  readOnly := f .readOnly
  writeOnly := f .writeOnly
  xml := f .xml
  externalDocs := f .externalDocs
  sample := f .sample
  deprecated := f .deprecated
  extensions := extensions

@[simp] theorem get_ofValues (source : SchemaId) (f : (k : Keyword) → k.Shown)
    (extensions : OrderedMap Json) (k : Keyword) : (ofValues source f extensions).get k = f k := by
  cases k <;> rfl

theorem ofValues_get (v : View) : ofValues v.source v.get v.extensions = v := rfl

/-- Two views with the same values of the same source are the same. -/
theorem ext_get {a b : View} (source : a.source = b.source) (values : ∀ k, a.get k = b.get k)
    (extensions : a.extensions = b.extensions) : a = b := by
  rw [← ofValues_get a, ← ofValues_get b, source, funext values, extensions]

def handles (v : View) : Applicator → List Handle
  | .allOf => v.allOf
  | .oneOf => v.oneOf
  | .anyOf => v.anyOf
  | .not => v.not
  | .items => v.items

/-- The view with other handles for an applicator. -/
def setHandles (v : View) (handles : List Handle) : Applicator → View
  | .allOf => { v with allOf := handles }
  | .oneOf => { v with oneOf := handles }
  | .anyOf => { v with anyOf := handles }
  | .not => { v with not := handles }
  | .items => { v with items := handles }

end View

end ApiSchema
