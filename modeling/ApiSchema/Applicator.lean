import ApiSchema.Json.Reader

/-!
The keywords of a schema that hold a list of nested schemas.
-/

namespace ApiSchema

/-- A keyword that applies a list of schemas to an instance. -/
inductive Applicator where
  | allOf
  | oneOf
  | anyOf
  | not
  | items
deriving DecidableEq, Repr, Inhabited

namespace Applicator

/-- All applicators in the order in which their lists are worked through. -/
def all : List Applicator :=
  [allOf, oneOf, anyOf, not, items]

def name : Applicator → String
  | allOf => "allOf"
  | oneOf => "oneOf"
  | anyOf => "anyOf"
  | not => "not"
  | items => "items"

def position : Applicator → Nat
  | allOf => 0
  | oneOf => 1
  | anyOf => 2
  | not => 3
  | items => 4

instance : Ord Applicator :=
  ⟨fun a b => compare a.position b.position⟩

def ofName? (name : String) : Option Applicator :=
  all.find? fun a => a.name == name

theorem ofName?_name (a : Applicator) : ofName? a.name = some a := by
  cases a <;> decide

/-- Reads an applicator from a JSON text: its quoted name, or an object with the name as the only
member and `null` as its value. -/
def parse? (text : String) : Option Applicator :=
  let name : Except Json.Fault (Option String) := do
    let c := (Json.Cursor.start text).skipBlanks
    match c.rest with
    | '"' :: _ =>
      let (name, c) ← Json.scanQuoted c.skip
      Json.expectEnd c
      return some name
    | '{' :: _ =>
      let c := c.skip.skipBlanks
      let '"' :: _ := c.rest | return none
      let (name, c) ← Json.scanQuoted c.skip
      let c := c.skipBlanks
      let ':' :: _ := c.rest | return none
      let c ← Json.scanWord ['n', 'u', 'l', 'l'] c.skip.skipBlanks
      let c := c.skipBlanks
      let '}' :: _ := c.rest | return none
      Json.expectEnd c.skip
      return some name
    | _ => return none
  match name with
  | .ok (some name) => ofName? name
  | _ => none

end Applicator

end ApiSchema
