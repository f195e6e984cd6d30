import ApiSchema.Pool.Schedule
import ApiSchema.Proofs.Pool.Steps

/-!
The fixed schedule is one of the interleavings.

`Plan.follow` only takes steps that `Plan.step` allows and begins no calls of bystanders. So what
holds of every run holds of it.
-/

namespace ApiSchema
namespace Pool

variable {Local Shared : Type} {p : Plan Local Shared} {around : Surroundings}
  {start s s' : State Local Shared} {h : History Local}

theorem within_of_mem_candidates {label : Label} (hmem : label ∈ s.candidates) :
    label.Within around := by
  simp only [State.candidates, List.mem_append, List.mem_map, List.mem_singleton] at hmem
  rcases hmem with ⟨i, _, rfl⟩ | rfl <;> trivial

/-- A scheduled step is one of the candidates, or the caller's limit runs out. -/
theorem Plan.scheduled_cases (hnext : p.scheduled s = some s') :
    (∃ label ∈ s.candidates, p.step s label = some s') ∨ p.expire s = some s' := by
  unfold Plan.scheduled at hnext
  split at hnext
  next later hlater =>
    cases hnext
    exact Or.inl (List.exists_of_findSome?_eq_some hlater)
  next => exact Or.inr hnext

/-- The caller's limit runs out in two events, while the caller sleeps. -/
theorem Plan.expire_cases (hexpire : p.expire s = some s') :
    ∃ waiting nanoseconds later, s.caller = .waiting (.sleeping waiting) ∧
      p.step s (.tick nanoseconds) = some later ∧ p.step later (.caller .expire) = some s' := by
  unfold Plan.expire at hexpire
  split at hexpire
  next begun limit hcaller =>
    simp only [bind, Option.bind_eq_some_iff] at hexpire
    obtain ⟨later, htick, hstep⟩ := hexpire
    exact ⟨_, _, later, hcaller, htick, hstep⟩
  · cases hexpire

theorem Plan.Run.scheduled (hrun : p.Run around start h s) (hnext : p.scheduled s = some s') :
    ∃ h', p.Run around start h' s' := by
  rcases Plan.scheduled_cases hnext with ⟨label, hmem, hstep⟩ | hexpire
  · exact ⟨_, hrun.step label (within_of_mem_candidates hmem) hstep⟩
  · obtain ⟨_, nanoseconds, later, _, htick, hstep⟩ := Plan.expire_cases hexpire
    have hwaited := hrun.step (.tick nanoseconds) trivial htick
    exact ⟨_, hwaited.step (.caller .expire) trivial hstep⟩

/-- What every scheduled step keeps is kept for as long as the schedule is followed. -/
theorem Plan.follow_keeps {kept : State Local Shared → Prop}
    (hkeeps : ∀ s s', kept s → p.scheduled s = some s' → kept s') (hkept : kept s) (steps : Nat) :
    kept (p.follow steps s) := by
  induction steps generalizing s with
  | zero => exact hkept
  | succ steps ih =>
      simp only [Plan.follow]
      cases hnext : p.scheduled s with
      | none => exact hkept
      | some later => exact ih (hkeeps s later hkept hnext)

/-- Following the schedule is a run. -/
theorem Plan.Run.follow (hrun : p.Run around start h s) (steps : Nat) :
    ∃ h', p.Run around start h' (p.follow steps s) := by
  have hkeeps : ∀ s s', (∃ h, p.Run around start h s) → p.scheduled s = some s' →
      ∃ h', p.Run around start h' s' := by
    rintro s s' ⟨h, hbefore⟩ hnext
    exact hbefore.scheduled hnext
  exact Plan.follow_keeps hkeeps ⟨h, hrun⟩ steps

theorem Plan.exists_run (p : Plan Local Shared) (around : Surroundings) (perUnit : Nat)
    (latch : Latch) (shared : Shared) :
    ∃ h, p.Run around (p.initial latch shared) h (p.run perUnit latch shared) :=
  Plan.Run.start.follow _

end Pool
end ApiSchema
