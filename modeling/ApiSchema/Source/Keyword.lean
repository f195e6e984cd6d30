/-!
The keywords of an OpenAPI 3.0 schema object and the shape of the value that each demands.
-/

namespace ApiSchema

/-- What the value of a keyword looks like. -/
inductive Shape where
  /-- A string. -/
  | text
  /-- Any number. -/
  | number
  /-- A non-negative integer. -/
  | natural
  /-- A boolean. -/
  | flag
  /-- An array of strings. -/
  | names
  /-- An array of arbitrary values. -/
  | values
  /-- An array of schemas. -/
  | schemas
  /-- A lone schema, or an array of schemas. -/
  | schemaOrSchemas
  /-- An object whose members are schemas. -/
  | properties
  /-- Any value at all. -/
  | any
  /-- A discriminator object. -/
  | discriminator
  /-- An object of XML metadata. -/
  | xml
  /-- A reference to documentation elsewhere. -/
  | externalDocs
deriving DecidableEq, Repr

/-- A keyword of a schema object. -/
inductive Keyword where
  | title
  | multipleOf
  | maximum
  | exclusiveMaximum
  | minimum
  | exclusiveMinimum
  | maxLength
  | minLength
  | pattern
  | format
  | maxItems
  | minItems
  | uniqueItems
  | maxProperties
  | minProperties
  | required
  | enumValues
  | typeName
  | allOf
  | oneOf
  | anyOf
  | not
  | items
  | properties
  | additionalProperties
  | description
  | defaultValue
  | nullable
  | discriminator
  | readOnly
  | writeOnly
  | xml
  | externalDocs
  | sample
  | deprecated
deriving DecidableEq, Repr

namespace Keyword

def all : List Keyword :=
  [title, multipleOf, maximum, exclusiveMaximum, minimum, exclusiveMinimum, maxLength, minLength,
   pattern, format, maxItems, minItems, uniqueItems, maxProperties, minProperties, required,
   enumValues, typeName, allOf, oneOf, anyOf, not, items, properties, additionalProperties,
   description, defaultValue, nullable, discriminator, readOnly, writeOnly, xml, externalDocs,
   sample, deprecated]

def name : Keyword → String
  | title => "title"
  | multipleOf => "multipleOf"
  | maximum => "maximum"
  | exclusiveMaximum => "exclusiveMaximum"
  | minimum => "minimum"
  | exclusiveMinimum => "exclusiveMinimum"
  | maxLength => "maxLength"
  | minLength => "minLength"
  | pattern => "pattern"
  | format => "format"
  | maxItems => "maxItems"
  | minItems => "minItems"
  | uniqueItems => "uniqueItems"
  | maxProperties => "maxProperties"
  | minProperties => "minProperties"
  | required => "required"
  | enumValues => "enum"
  | typeName => "type"
  | allOf => "allOf"
  | oneOf => "oneOf"
  | anyOf => "anyOf"
  | not => "not"
  | items => "items"
  | properties => "properties"
  | additionalProperties => "additionalProperties"
  | description => "description"
  | defaultValue => "default"
  | nullable => "nullable"
  | discriminator => "discriminator"
  | readOnly => "readOnly"
  | writeOnly => "writeOnly"
  | xml => "xml"
  | externalDocs => "externalDocs"
  | sample => "example"
  | deprecated => "deprecated"

/-- The shape of the value. -/
def shape : Keyword → Shape
  | title | pattern | format | typeName | description => .text
  | multipleOf | maximum | minimum => .number
  | exclusiveMaximum | exclusiveMinimum | uniqueItems | nullable | readOnly | writeOnly
  | deprecated => .flag
  | maxLength | minLength | maxItems | minItems | maxProperties | minProperties => .natural
  | required => .names
  | enumValues => .values
  | allOf | oneOf | anyOf => .schemas
  | not | items => .schemaOrSchemas
  | properties => .properties
  | additionalProperties | defaultValue | sample => .any
  | discriminator => .discriminator
  | xml => .xml
  | externalDocs => .externalDocs

def ofName? (name : String) : Option Keyword :=
  all.find? fun k => k.name == name

theorem mem_all (k : Keyword) : k ∈ all := by
  cases k <;> decide

theorem ofName?_name (k : Keyword) : ofName? k.name = some k := by
  cases k <;> decide

theorem name_of_ofName? {name : String} {k : Keyword} (h : ofName? name = some k) :
    k.name = name := by
  simpa using List.find?_some h

theorem name_injective {a b : Keyword} (h : a.name = b.name) : a = b := by
  simpa [ofName?_name] using congrArg ofName? h

end Keyword

/-- Whether a member key announces an extension, which every schema, XML and documentation object
may carry. -/
def isExtensionKey (key : String) : Bool :=
  ['x', '-'].isPrefixOf key.toList

end ApiSchema
