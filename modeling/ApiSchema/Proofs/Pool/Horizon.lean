import ApiSchema.Proofs.Pool.Signals

/-!
Limits that lie past the horizon of the clock.

A caller panics at the start of its wait if the clock cannot name the end of its limit, and for no
other reason. If the clock could not even name it had no time passed, the caller never returns.
-/

namespace ApiSchema
namespace Pool

variable {Local Shared : Type} {p : Plan Local Shared} {choice : Latch.Choice}
  {h : History Local} {s s' : State Local Shared} {label : Label} {around : Surroundings}

/-- A wait panics only if the clock cannot name the end of its limit. -/
theorem overflows_of_panicked {l l' : Latch} {me : Thread} {now : Nat} {phase : Latch.Phase}
    (hserves : phase.Serves (.wait p.limit))
    (hadvance : Latch.Advance l me now choice phase l' (.finished .panicked)) :
    Latch.overflows now p.limit = true := by
  cases hadvance with
  | lock free locked => exact absurd locked (phase.locked?_ne_finished _)
  | overflow limit _ beyond =>
      cases hserves
      exact beyond
  | release reply =>
      obtain ⟨result, heq⟩ := hserves
      cases heq

theorem overflows_later {now : Nat} {limit : Option Duration}
    (h : Latch.overflows now limit = true) (nanoseconds : Nat) :
    Latch.overflows (now + nanoseconds) limit = true := by
  cases limit with
  | none => cases h
  | some limit =>
      have hbeyond : Latch.horizon ≤ now + limit.nanoseconds := of_decide_eq_true h
      exact decide_eq_true (by omega)

/-- A caller whose wait has panicked. -/
def Caller.Fallen : Caller → Prop
  | .unwinding | .panicked => True
  | _ => False

theorem CallerStep.fallen (hserves : s.caller.Serves p.limit)
    (hstep : CallerStep p s choice s.caller s') (hfallen : s'.caller.Fallen) :
    s.caller.Fallen ∨ Latch.overflows s.common.clock p.limit = true := by
  generalize hcaller : s.caller = caller at hstep hserves
  cases hstep with
  | spawn _ =>
      rw [show Caller.Fallen _ = Caller.Fallen s.caller from rfl, hcaller] at hfallen
      exact hfallen.elim
  | waitReturn reply advance =>
      cases reply with
      | panicked => exact Or.inr (overflows_of_panicked hserves advance)
      | released result => cases result <;> exact hfallen.elim
      | _ => exact hfallen.elim
  | escape _ => exact Or.inl trivial
  | begin _ | failStep _ _ | failReturn _ _ | waitStep _ _ | cancel _ | join _ _ _
  | finish _ _ _ => exact hfallen.elim

theorem CallerStep.clock_eq {caller : Caller} (hstep : CallerStep p s choice caller s') :
    s'.common.clock = s.common.clock := by
  cases hstep <;> rfl

theorem Step.clock_le (hstep : Step p s label s') : s.common.clock ≤ s'.common.clock := by
  cases hstep with
  | tick nanoseconds => exact Nat.le_add_right _ nanoseconds
  | caller hstep => exact hstep.clock_eq.ge
  | worker index here hstep => cases hstep <;> exact Nat.le_refl _
  | refuse _ _ _ | outside _ | bystander _ _ _ => exact Nat.le_refl _

/-- The caller panics only if the clock cannot name the end of its limit. -/
theorem Plan.Run.overflows {latch : Latch} {shared : Shared}
    (hrun : p.Run around (p.initial latch shared) h s) (hfallen : s.caller.Fallen) :
    Latch.overflows s.common.clock p.limit = true := by
  induction hrun with
  | start => by_cases hunits : p.units = 0 <;> simp [Plan.initial, hunits, Caller.Fallen] at hfallen
  | @step h s s' label before _ hnext ih =>
      have hstep := step_cases hnext
      obtain ⟨passed, hclock⟩ := Nat.exists_eq_add_of_le hstep.clock_le
      rw [hclock]
      refine overflows_later ?_ passed
      cases hstep with
      | tick _ | outside _ | bystander _ _ _ | worker _ _ _ => exact ih hfallen
      | refuse _ _ _ => exact hfallen.elim
      | caller hstep => exact (hstep.fallen before.serving.caller hfallen).elim ih id

/-- A caller that has not come past the start of its wait. -/
def Caller.Unstarted : Caller → Prop
  | .starting | .failing _ | .waiting (.entering _) | .unwinding | .panicked => True
  | _ => False

/-- Nothing leads back to the start of the wait, or to a panic from beyond it. -/
theorem CallerStep.unstarted_of (hserves : s.caller.Serves p.limit)
    (hstep : CallerStep p s choice s.caller s') (hunstarted : s'.caller.Unstarted) :
    s.caller.Unstarted := by
  generalize hcaller : s.caller = caller at hstep hserves
  cases hstep with
  | @waitStep choice phase phase' _ advance _ =>
      cases phase' with
      | entering call => exact absurd rfl (advance.ne_entering call)
      | _ => exact hunstarted.elim
  | waitReturn reply advance =>
      cases advance with
      | lock _ locked => exact absurd locked (Latch.Phase.locked?_ne_finished _ _)
      | cancel | peek | pass _ _ | overflow _ _ _ => trivial
      | release _ =>
          obtain ⟨result, rfl⟩ := hserves
          cases result <;> exact hunstarted.elim
  | spawn _ | begin _ | failStep _ _ | failReturn _ _ | escape _ => trivial
  | cancel _ | join _ _ _ | finish _ _ _ => exact hunstarted.elim

end Pool
end ApiSchema
