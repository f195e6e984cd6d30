import ApiSchema.Json.Printer
import ApiSchema.View.Basic

/-!
The part of a view that needs no work on nested schemas: everything copied from the source but the
handles, which are left empty.
-/

namespace ApiSchema
namespace View

def valueOf {α : Type} (field : Option (Source.Field α)) : Option α :=
  field.map (·.value)

def flagOf (field : Option (Source.Field Bool)) : Bool :=
  (valueOf field).getD false

def valuesOf {α β : Type} (f : α → β) (field : Option (Source.Field (List (Source.Element α)))) :
    List β :=
  match field with
  | some field => field.value.map fun e => f e.value
  | none => []

/-- Entries as an ordered map. -/
def mapOf {α : Type} (entries : List (Source.Entry α)) : OrderedMap α :=
  OrderedMap.ofEntries (entries.map fun e => (e.key, e.value))

def Discriminator.ofSource (d : Source.Discriminator) : Discriminator where
  propertyName := valueOf d.propertyName
  mapping := mapOf d.mapping

def Xml.ofSource (x : Source.Xml) : Xml where
  name := valueOf x.name
  uri := valueOf x.uri
  qualifier := valueOf x.qualifier
  asAttribute := flagOf x.asAttribute
  wrapped := flagOf x.wrapped
  extensions := mapOf x.extensions

def ExternalDocs.ofSource (d : Source.ExternalDocs) : ExternalDocs where
  description := valueOf d.description
  url := valueOf d.url
  extensions := mapOf d.extensions

end View

open View in
/-- The value of a field in a view, handles left out. -/
def Shape.shown {C : Type} :
    (shape : Shape) → Option (Source.Field (shape.Value C)) → shape.Shown
  | .text, field => valueOf field
  | .number, field => valueOf field
  | .natural, field => valueOf field
  | .flag, field => flagOf field
  | .names, field => valuesOf id field
  | .values, field => valuesOf Json.label field
  | .schemas, _ => []
  | .schemaOrSchemas, _ => []
  | .properties, _ => []
  | .any, field => valueOf field
  | .discriminator, field => (valueOf field).map Discriminator.ofSource
  | .xml, field => (valueOf field).map Xml.ofSource
  | .externalDocs, field => (valueOf field).map ExternalDocs.ofSource

namespace View

/-- The view of a schema without its handles. -/
def scalars (id : SchemaId) (s : Source.Schema ChildId) : View :=
  ofValues id (fun k => k.shape.shown (s.get k)) (mapOf s.extensions)

end View
end ApiSchema
