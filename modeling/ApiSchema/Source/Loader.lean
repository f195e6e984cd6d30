import ApiSchema.Failure
import ApiSchema.Source.Schema

/-!
Building a schema from a JSON value and the pointer of its place in a document.

A schema must be an object. Its members are checked in order and the first bad one is the error;
unknown keywords are ignored. Nested schemas must be objects but are not looked into: they are kept
as fragments. `Shape.read` says for each shape what is accepted, what it becomes and which error
refuses it.
-/

namespace ApiSchema
namespace Source

variable {α : Type}

/-- A value of the kind that was expected, or the error that it is none. -/
def demand (expected : Expectation) (p : Pointer) : Option α → Except LoadError α
  | some value => .ok value
  | none => .error (.invalidField p expected)

/-- Reads array items in order, numbered from `index` on, up to the first error. -/
def readElements (read : Pointer → Json → Except LoadError α) (p : Pointer) (index : Nat) :
    List Json → Except LoadError (List (Element α))
  | [] => .ok []
  | item :: rest => do
    let value ← read (p.element index) item
    let elements ← readElements read p (index + 1) rest
    return ⟨value, p.element index⟩ :: elements

def readEntries (read : Pointer → Json → Except LoadError α) (p : Pointer) :
    List (String × Json) → Except LoadError (List (Entry α))
  | [] => .ok []
  | (key, item) :: rest => do
    let value ← read (p.child key) item
    let entries ← readEntries read p rest
    return ⟨key, p.child key, value, p.child key⟩ :: entries

/-- Checks object members in order up to the first error. -/
def checkMembers (check : String → Pointer → Json → Except LoadError Unit) (p : Pointer) :
    List (String × Json) → Except LoadError Unit
  | [] => .ok ()
  | (key, value) :: rest => do
    check key (p.child key) value
    checkMembers check p rest

/-- The field of a member, if the member is there and of the right kind. -/
def memberField? (read : Json → Option α) (p : Pointer) (members : List (String × Json))
    (key : String) : Option (Field α) := do
  let value ← OrderedMap.get? key members
  return Field.loaded (p.child key) (← read value)

def readExtensions (p : Pointer) (members : List (String × Json)) : List (Entry Json) :=
  (members.filter fun member => isExtensionKey member.1).map fun member =>
    ⟨member.1, p.child member.1, member.2, p.child member.1⟩

def readText (p : Pointer) (value : Json) : Except LoadError String :=
  demand .text p value.string?

def readFlag (p : Pointer) (value : Json) : Except LoadError Bool :=
  demand .flag p value.bool?

/-- A nested schema, which has to be an object, as a fragment. -/
def readFragment (p : Pointer) (value : Json) : Except LoadError Fragment :=
  if value.isObject then .ok ⟨p, value⟩ else .error (.notAnObject p)

def checkDiscriminatorMember (key : String) (p : Pointer) (value : Json) : Except LoadError Unit :=
  if key = "propertyName" then do
    let _ ← readText p value
  else if key = "mapping" then do
    let members ← demand .object p value.object?
    let _ ← readEntries readText p members
  else .ok ()

def readDiscriminator (p : Pointer) (value : Json) : Except LoadError Discriminator := do
  let members ← demand .object p value.object?
  checkMembers checkDiscriminatorMember p members
  let mapping := memberField? (fun value => do
    (readEntries readText (p.child "mapping") (← value.object?)).toOption) p members "mapping"
  return {
    propertyName := memberField? Json.string? p members "propertyName"
    mapping := match mapping with
      | some field => field.value
      | none => [] }

/-- What an XML object demands of a member. -/
def checkXmlMember (key : String) (p : Pointer) (value : Json) : Except LoadError Unit :=
  if key = "name" ∨ key = "namespace" ∨ key = "prefix" then do
    let _ ← readText p value
  else if key = "attribute" ∨ key = "wrapped" then do
    let _ ← readFlag p value
  else .ok ()

def readXml (p : Pointer) (value : Json) : Except LoadError Xml := do
  let members ← demand .object p value.object?
  checkMembers checkXmlMember p members
  return {
    name := memberField? Json.string? p members "name"
    uri := memberField? Json.string? p members "namespace"
    qualifier := memberField? Json.string? p members "prefix"
    asAttribute := memberField? Json.bool? p members "attribute"
    wrapped := memberField? Json.bool? p members "wrapped"
    extensions := readExtensions p members }

def checkExternalDocsMember (key : String) (p : Pointer) (value : Json) : Except LoadError Unit :=
  if key = "description" ∨ key = "url" then do
    let _ ← readText p value
  else .ok ()

def readExternalDocs (p : Pointer) (value : Json) : Except LoadError ExternalDocs := do
  let members ← demand .object p value.object?
  checkMembers checkExternalDocsMember p members
  return {
    description := memberField? Json.string? p members "description"
    url := memberField? Json.string? p members "url"
    extensions := readExtensions p members }

/-- An array of nested schemas. -/
def readSchemas (p : Pointer) (value : Json) : Except LoadError (List (Element Fragment)) := do
  readElements readFragment p 0 (← demand .schemas p value.array?)

/-- An array of nested schemas, or a lone one, which stands at the place of the field itself. -/
def readSchemaOrSchemas (p : Pointer) : Json → Except LoadError (List (Element Fragment))
  | .arr items => readElements readFragment p 0 items
  | .obj members => .ok [⟨⟨p, .obj members⟩, p⟩]
  | _ => .error (.invalidField p .schemaOrSchemas)

end Source

open Source in
/-- Reads a value of a shape that stands at `p`. -/
def Shape.read (p : Pointer) (value : Json) :
    (shape : Shape) → Except LoadError (shape.Value Fragment)
  | .text => readText p value
  | .number => demand .number p value.number?
  | .natural => demand .natural p value.natural?
  | .flag => readFlag p value
  | .names => do readElements readText p 0 (← demand .array p value.array?)
  | .values => do readElements (fun _ item => .ok item) p 0 (← demand .array p value.array?)
  | .schemas => readSchemas p value
  | .schemaOrSchemas => readSchemaOrSchemas p value
  | .properties => do readEntries readFragment p (← demand .object p value.object?)
  | .any => .ok value
  | .discriminator => readDiscriminator p value
  | .xml => readXml p value
  | .externalDocs => readExternalDocs p value

namespace Source

/-- What a schema demands of a member: a known keyword has a value of its shape. -/
def checkSchemaMember (key : String) (p : Pointer) (value : Json) : Except LoadError Unit :=
  match Keyword.ofName? key with
  | some k => do
    let _ ← k.shape.read p value
  | none => .ok ()

/-- The schema that a value at `p` stands for. -/
def load (p : Pointer) : Json → Except LoadError (Schema Fragment)
  | .obj members => do
    checkMembers checkSchemaMember p members
    return Schema.ofFields
      (fun k => memberField? (fun value => (k.shape.read (p.child k.name) value).toOption)
        p members k.name)
      (readExtensions p members)
  | _ => .error (.notAnObject p)

/-- The target of a fragment that is a reference: the string under `$ref`. -/
def Fragment.reference? (fragment : Fragment) : Option String := do
  (← fragment.value.member? "$ref").string?

/-- The schema that a fragment stands for. A reference has none of its own, whatever else it holds.
-/
def Fragment.build (fragment : Fragment) : Except LoadError (Schema Fragment) :=
  match fragment.reference? with
  | some reference => .error (.unresolvedReference fragment.origin reference)
  | none => load fragment.origin fragment.value

end Source
end ApiSchema
