import ApiSchema.Applicator
import ApiSchema.Duration
import ApiSchema.Pointer

/-!
What can go wrong: building a schema from a document, and assembling the view of a schema.
-/

namespace ApiSchema

/-- What a schema keyword demands of its value. -/
inductive Expectation where
  | text
  | number
  | natural
  | flag
  | array
  | object
  | schemas
  | schemaOrSchemas
  /-- Anything else, in words. -/
  | other (wording : String)
deriving DecidableEq, Repr

def Expectation.message : Expectation → String
  | text => "a string"
  | number => "a number"
  | natural => "a non-negative integer"
  | flag => "a boolean"
  | array => "an array"
  | object => "an object"
  | schemas => "an array of schemas"
  | schemaOrSchemas => "a schema or an array of schemas"
  | other wording => wording

def Expectation.ofMessage (wording : String) : Expectation :=
  let known := [text, number, natural, flag, array, object, schemas, schemaOrSchemas]
  (known.find? fun e => e.message == wording).getD (.other wording)

/-- Why a schema cannot be built. -/
inductive LoadError where
  /-- The text is no JSON; the fault is given in words. -/
  | malformedJson (fault : String)
  /-- The text is no YAML that stands for a JSON value. -/
  | malformedYaml
  /-- A schema position holds something other than an object. -/
  | notAnObject (origin : Pointer)
  /-- A known keyword holds a value of the wrong type. -/
  | invalidField (origin : Pointer) (expected : Expectation)
  /-- A reference was asked for its schema. -/
  | unresolvedReference (origin : Pointer) (reference : String)
deriving DecidableEq, Repr

def LoadError.message : LoadError → String
  | malformedJson fault => "JSON parse error: " ++ fault
  | malformedYaml => "YAML parse error"
  | notAnObject origin => "expected a schema object at '" ++ origin.display ++ "'"
  | invalidField origin expected =>
    "invalid value at '" ++ origin.display ++ "': expected " ++ expected.message
  | unresolvedReference origin reference =>
    "unresolved reference '" ++ reference ++ "' at '" ++ origin.display ++ "'"

/-- Why a view cannot be assembled. -/
inductive Failure where
  /-- Two properties share a key; the later one is reported. -/
  | duplicateProperty (key : String) (origin : Pointer)
  /-- An applicator list was collected with cells that no unit filled. -/
  | incompleteSlot (applicator : Applicator) (filled expected : Nat)
  /-- A property was collected whose cell no unit filled. -/
  | incompleteProperty (key : String)
  /-- A unit found its cell filled already. -/
  | internal (text : String)
  /-- The wait for the units ran past its limit. -/
  | timeout (elapsed limit : Duration)
  /-- A unit panicked. -/
  | workerPanicked (text : String)
  /-- A worker could not be started. -/
  | spawn (text : String)
  /-- The schema behind a child could not be built. -/
  | build (error : LoadError)
deriving DecidableEq, Repr

/-- The wording of a failure. -/
def Failure.message : Failure → String
  | duplicateProperty key origin =>
    "duplicate property '" ++ key ++ "' at '" ++ origin.display ++ "'"
  | incompleteSlot applicator filled expected =>
    applicator.name ++ " slot completed with " ++ toString filled ++ " of " ++ toString expected ++
      " elements"
  | incompleteProperty key => "property '" ++ key ++ "' was not materialized"
  | internal text => "internal error: " ++ text
  | timeout elapsed limit =>
    "materialization exceeded time limit (elapsed=" ++ elapsed.text ++ ", limit=" ++ limit.text ++
      ")"
  | workerPanicked text => "worker thread panicked: " ++ text
  | spawn text => "failed to spawn worker thread: " ++ text
  | build error => error.message

end ApiSchema
