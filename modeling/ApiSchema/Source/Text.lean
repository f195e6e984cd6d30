import ApiSchema.Json.Reader
import ApiSchema.Source.Loader
import ApiSchema.Yaml.Reader

/-!
Building a schema from the text of a document.
-/

namespace ApiSchema
namespace Source

/-- The schema at the root of a JSON text. -/
def loadJson (text : String) : Except LoadError (Schema Fragment) :=
  match Json.parse text with
  | .error fault => .error (.malformedJson (fault.message text))
  | .ok value => load .root value

def loadYaml (text : String) : Except LoadError (Schema Fragment) :=
  match Yaml.parse? text with
  | none => .error .malformedYaml
  | some value => load .root value

end Source
end ApiSchema
