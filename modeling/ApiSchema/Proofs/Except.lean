/-!
Computations that can fail, one after another.

The readers, the loader and the assembly of views all stop at the first error. So where a sequence
of steps has succeeded, each of them has, and a proof takes them one by one.
-/

namespace ApiSchema

variable {ε α β : Type}

/-- A sequence of two computations succeeds if both do. -/
theorem bind_ok {x : Except ε α} {f : α → Except ε β} {b : β} (h : (x >>= f) = .ok b) :
    ∃ a, x = .ok a ∧ f a = .ok b := by
  cases x with
  | error e => cases h
  | ok a => exact ⟨a, rfl, h⟩

end ApiSchema
