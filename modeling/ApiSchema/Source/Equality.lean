import ApiSchema.Source.Schema

/-!
Equality of schemas field by field.

Places are part of a field and are compared too. Lists are compared in order, numbers as numbers and
JSON values without regard to the order of object members. How nested schemas are compared is left
to the caller.
-/

namespace ApiSchema
namespace Source

variable {α : Type}

def sameOption (same : α → α → Bool) : Option α → Option α → Bool
  | none, none => true
  | some a, some b => same a b
  | _, _ => false

def sameList (same : α → α → Bool) : List α → List α → Bool
  | [], [] => true
  | a :: as, b :: bs => same a b && sameList same as bs
  | _, _ => false

def Field.same (same : α → α → Bool) (a b : Field α) : Bool :=
  same a.value b.value && a.keyAt == b.keyAt && a.valueAt == b.valueAt

def Element.same (same : α → α → Bool) (a b : Element α) : Bool :=
  same a.value b.value && a.origin == b.origin

def Entry.same (same : α → α → Bool) (a b : Entry α) : Bool :=
  a.key == b.key && a.keyAt == b.keyAt && same a.value b.value && a.valueAt == b.valueAt

def sameField (same : α → α → Bool) : Option (Field α) → Option (Field α) → Bool :=
  sameOption (Field.same same)

def sameExtensions : List (Entry Json) → List (Entry Json) → Bool :=
  sameList (Entry.same Json.same)

def Discriminator.same (a b : Discriminator) : Bool :=
  sameField (· == ·) a.propertyName b.propertyName &&
    sameList (Entry.same (· == ·)) a.mapping b.mapping

def Xml.same (a b : Xml) : Bool :=
  sameField (· == ·) a.name b.name && sameField (· == ·) a.uri b.uri &&
    sameField (· == ·) a.qualifier b.qualifier &&
    sameField (· == ·) a.asAttribute b.asAttribute && sameField (· == ·) a.wrapped b.wrapped &&
    sameExtensions a.extensions b.extensions

def ExternalDocs.same (a b : ExternalDocs) : Bool :=
  sameField (· == ·) a.description b.description && sameField (· == ·) a.url b.url &&
    sameExtensions a.extensions b.extensions

end Source

open Source in
/-- Equality of values of a shape, given equality of nested schemas. -/
def Shape.same {C : Type} (sameChild : C → C → Bool) :
    (shape : Shape) → shape.Value C → shape.Value C → Bool
  | .text => fun a b => a == b
  | .number => Binary64.numericEq
  | .natural => fun a b => a == b
  | .flag => fun a b => a == b
  | .names => sameList (Element.same (· == ·))
  | .values => sameList (Element.same Json.same)
  | .schemas => sameList (Element.same sameChild)
  | .schemaOrSchemas => sameList (Element.same sameChild)
  | .properties => sameList (Entry.same sameChild)
  | .any => Json.same
  | .discriminator => Discriminator.same
  | .xml => Xml.same
  | .externalDocs => ExternalDocs.same

namespace Source

/-- Equality of schemas, given equality of nested schemas. -/
def Schema.same {C : Type} (sameChild : C → C → Bool) (a b : Schema C) : Bool :=
  (Keyword.all.all fun k => sameField (k.shape.same sameChild) (a.get k) (b.get k)) &&
    sameExtensions a.extensions b.extensions

end Source
end ApiSchema
