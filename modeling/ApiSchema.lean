import ApiSchema.Assembly.Run
import ApiSchema.Latch.Callers
import ApiSchema.Pool.Script
import ApiSchema.Settings.Reader
import ApiSchema.Source.Text
import ApiSchema.Store.Description
import ApiSchema.Store.Equality
import ApiSchema.View.Equality
import ApiSchema.View.Walk
import ApiSchema.Proofs.Latch.Wakeup
import ApiSchema.Proofs.Pool.Verdict
import ApiSchema.Proofs.Pool.Termination
import ApiSchema.Proofs.Pool.Cancellation
import ApiSchema.Proofs.Assembly.Release
import ApiSchema.Proofs.Assembly.Refinement
import ApiSchema.Proofs.Assembly.Numbering
import ApiSchema.Proofs.Latch.Return
import ApiSchema.Proofs.Source.Documents
import ApiSchema.Proofs.View.Exploration
import ApiSchema.Proofs.Json.Extent
import ApiSchema.Proofs.Pointer.Descent
import ApiSchema.Proofs.Source.Nested
import ApiSchema.Proofs.Source.Descent
import ApiSchema.Proofs.View.Picture
import ApiSchema.Proofs.View.Walk
import ApiSchema.Proofs.View.Document
import ApiSchema.Proofs.View.Expansion
import ApiSchema.Proofs.Json.Same
import ApiSchema.Proofs.View.Equality
import ApiSchema.Proofs.View.Identity
import ApiSchema.Proofs.Store.Equality
import ApiSchema.Proofs.Store.Twins
import ApiSchema.Proofs.Sharing.Informed
import ApiSchema.Proofs.Sharing.Coherence
import ApiSchema.Proofs.Store.Keys
import ApiSchema.Proofs.Store.Relocation
import ApiSchema.Proofs.Store.Contents
import ApiSchema.Proofs.View.Unheeded
