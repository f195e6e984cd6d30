import ApiSchema.Proofs.Json.Parsed
import ApiSchema.Proofs.Source.Rendering
import ApiSchema.Proofs.Yaml.Parsed
import ApiSchema.Source.Text

/-!
Schemas that are built from the text of a document.

No object of a document repeats a key, so such a schema is faithful to its document.
-/

namespace ApiSchema
namespace Source

variable {text : String} {s : Schema Fragment}

theorem loadJson_faithful (h : loadJson text = .ok s) :
    ∃ v, Json.parse text = .ok v ∧ Faithful .root v s := by
  unfold loadJson at h
  split at h
  next => cases h
  next v hparse =>
    obtain ⟨members, rfl, hreads⟩ := load_reads h
    exact ⟨_, hparse, hreads.faithful (Json.parse_distinct hparse)⟩

theorem loadYaml_faithful (h : loadYaml text = .ok s) :
    ∃ v, Yaml.parse? text = some v ∧ Faithful .root v s := by
  unfold loadYaml at h
  split at h
  next => cases h
  next v hparse =>
    obtain ⟨members, rfl, hreads⟩ := load_reads h
    exact ⟨_, hparse, hreads.faithful (Yaml.parse?_distinct hparse)⟩

end Source
end ApiSchema
