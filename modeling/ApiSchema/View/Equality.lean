import ApiSchema.Source.Equality
import ApiSchema.View.Basic

/-!
Equality of views.

Views are equal when all their values are and they come from the same schema object. Handles are
equal when they lead to the same child and stand at the same places. Maps are compared without
regard to order.
-/

namespace ApiSchema

open Source (sameOption)

namespace View

def Discriminator.same (a b : Discriminator) : Bool :=
  a.propertyName == b.propertyName && OrderedMap.sameEntries (· == ·) a.mapping b.mapping

def Xml.same (a b : Xml) : Bool :=
  a.name == b.name && a.uri == b.uri && a.qualifier == b.qualifier &&
    a.asAttribute == b.asAttribute && a.wrapped == b.wrapped &&
    OrderedMap.sameEntries Json.same a.extensions b.extensions

def ExternalDocs.same (a b : ExternalDocs) : Bool :=
  a.description == b.description && a.url == b.url &&
    OrderedMap.sameEntries Json.same a.extensions b.extensions

end View

open View in
def Shape.sameShown : (shape : Shape) → shape.Shown → shape.Shown → Bool
  | .text => fun a b => a == b
  | .number => sameOption Binary64.numericEq
  | .natural => fun a b => a == b
  | .flag => fun a b => a == b
  | .names => fun a b => a == b
  | .values => fun a b => a == b
  | .schemas => fun a b => a == b
  | .schemaOrSchemas => fun a b => a == b
  | .properties => OrderedMap.sameEntries (· == ·)
  | .any => sameOption Json.same
  | .discriminator => sameOption Discriminator.same
  | .xml => sameOption Xml.same
  | .externalDocs => sameOption ExternalDocs.same

namespace View

def same (a b : View) : Bool :=
  (Keyword.all.all fun k => k.shape.sameShown (a.get k) (b.get k)) &&
    OrderedMap.sameEntries Json.same a.extensions b.extensions && a.source == b.source

end View
end ApiSchema
