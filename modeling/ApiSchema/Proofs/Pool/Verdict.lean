import ApiSchema.Proofs.Pool.Failures
import ApiSchema.Proofs.Pool.Scheduled
import ApiSchema.Proofs.Pool.Script
import Mathlib.Data.List.Perm.Subperm

/-!
What a pool returns, and what it says about the units.

A caller goes on with a result that the latch has justified: enough arrivals, the failure that is
kept, or its own limit. Together with the contract of a job that signals once for each unit that
succeeds, the result of a run says how the units ended.
-/

namespace ApiSchema
namespace Pool

variable {Local Shared : Type} {p : Plan Local Shared} {choice : Latch.Choice}
  {h : History Local} {s s' : State Local Shared} {label : Label} {around : Surroundings}

/-- The result that a caller has come to, whether or not it has returned. -/
def Caller.result? : Caller → Option (Except Failure Unit)
  | .waiting (.releasing (.released result)) => some result
  | .cancelling failure => some (.error failure)
  | .joining result _ | .returned result => some result
  | _ => none

/-- What can bring the caller to a result. -/
def Plan.Justified (p : Plan Local Shared) (h : History Local) (l : Latch) :
    Except Failure Unit → Prop
  | .ok () => l.expected ≤ arrived anySignal h
  | .error failure => l.failure = some failure ∨
      ∃ elapsed limit, p.limit = some limit ∧ failure = .timeout elapsed limit

/-- What justifies a result goes on to justify it. -/
theorem Step.justified (hstep : Step p s label s') {result : Except Failure Unit}
    (hresult : p.Justified h s.common.latch result) (notices : History Local) :
    p.Justified (h ++ notices) s'.common.latch result := by
  cases result with
  | ok _ =>
      unfold Plan.Justified at hresult ⊢
      rw [hstep.expected_eq, arrived_append]
      exact Nat.le_add_right_of_le hresult
  | error failure =>
      rcases hresult with hfailure | hlimit
      · exact Or.inl (hstep.failure_mono hfailure)
      · exact Or.inr hlimit

theorem phase_of_result? {phase : Latch.Phase} {result : Except Failure Unit}
    (hresult : (Caller.waiting phase).result? = some result) :
    phase = .releasing (.released result) := by
  cases phase with
  | releasing reply =>
      cases reply with
      | released result' =>
          cases hresult
          rfl
      | _ => cases hresult
  | _ => cases hresult

/-- A waiter comes to a result that is justified. -/
theorem justified_advance {l l' : Latch} {me : Thread} {now : Nat} {phase : Latch.Phase}
    {result : Except Failure Unit}
    (hcounted : l.arrivals.toNat ≤ arrived anySignal h)
    (hserves : phase.Serves (.wait p.limit))
    (hadvance : Latch.Advance l me now choice phase l' (.releasing (.released result))) :
    p.Justified h l' result := by
  cases hadvance with
  | lock free locked => exact absurd locked (phase.locked?_ne_releasing _)
  | refuse waiting failure failed => exact Or.inl failed
  | allow waiting unfailed complete => exact Nat.le_trans (of_decide_eq_true complete) hcounted
  | giveUp start limit => exact Or.inr ⟨_, limit, hserves, rfl⟩

/-- A wait returns with the result that it has come to, or at once if nothing is expected. -/
theorem justified_return {l l' : Latch} {me : Thread} {now : Nat} {phase : Latch.Phase}
    {reply : Latch.Reply} {result : Except Failure Unit} (hserves : phase.Serves (.wait p.limit))
    (hold : ∀ result, (Caller.waiting phase).result? = some result → p.Justified h l result)
    (hadvance : Latch.Advance l me now choice phase l' (.finished reply))
    (hresult : (Caller.afterWait reply).result? = some result) : p.Justified h l' result := by
  cases hadvance with
  | lock free locked => exact absurd locked (phase.locked?_ne_finished _)
  | cancel | peek => cases hserves
  | pass limit none_expected =>
      cases hresult
      exact none_expected.le.trans (Nat.zero_le _)
  | overflow _ _ _ => cases hresult
  | release _ =>
      obtain ⟨result', rfl⟩ := hserves
      have hjustified := hold result' rfl
      cases result' <;> cases hresult <;> exact hjustified

theorem justified_caller (hserves : s.caller.Serves p.limit)
    (hcounted : s.common.latch.arrivals.toNat ≤ arrived anySignal h)
    (hold : ∀ result, s.caller.result? = some result → p.Justified h s.common.latch result)
    (hstep : CallerStep p s choice s.caller s') {result : Except Failure Unit}
    (hresult : s'.caller.result? = some result) : p.Justified h s'.common.latch result := by
  generalize hcaller : s.caller = caller at hstep hserves hold
  cases hstep with
  | spawn _ =>
      have hstarting : s.caller.result? = some result := hresult
      rw [hcaller] at hstarting
      exact hold result hstarting
  | begin _ | failStep _ _ | failReturn _ _ | escape _ => cases hresult
  | waitStep advance _ =>
      obtain rfl := phase_of_result? hresult
      exact justified_advance hcounted hserves advance
  | waitReturn reply advance => exact justified_return hserves hold advance hresult
  | cancel failure =>
      cases hresult
      exact hold _ rfl
  | join _ _ _ | finish _ _ _ =>
      cases hresult
      exact hold _ rfl

/-- The latch has counted no more than the history notes. -/
theorem Plan.Run.arrivals_le {expected : Nat} {shared : Shared}
    (hquiet : ∀ kind, ¬ around.calls (.signal kind))
    (hrun : p.Run around (p.initial { expected := expected } shared) h s) :
    s.common.latch.arrivals.toNat ≤ arrived anySignal h := by
  rw [hrun.arrivals_eq hquiet, UInt64.toNat_ofNat']
  exact Nat.mod_le _ _

/-- A caller only comes to results that are justified. -/
theorem Plan.Run.justified {expected : Nat} {shared : Shared}
    (hunits : 1 ≤ p.units) (hquiet : ∀ kind, ¬ around.calls (.signal kind))
    (hrun : p.Run around (p.initial { expected := expected } shared) h s)
    {result : Except Failure Unit} (hresult : s.caller.result? = some result) :
    p.Justified h s.common.latch result := by
  induction hrun generalizing result with
  | start =>
      have hsome : p.units ≠ 0 := Nat.ne_of_gt hunits
      simp [Plan.initial, hsome, Caller.result?] at hresult
  | @step h s s' label before within next ih =>
      have hstep := step_cases next
      by_cases hcaller : ∃ choice, label = .caller choice
      · obtain ⟨choice, rfl⟩ := hcaller
        cases hstep with
        | caller hcaller =>
            have hjustified := justified_caller before.serving.caller (before.arrivals_le hquiet)
              (fun _ hold => ih hold) hcaller hresult
            simpa [Plan.notices] using hjustified
      · refine hstep.justified (ih ?_) _
        cases hstep with
        | caller _ => exact absurd ⟨_, rfl⟩ hcaller
        | refuse _ _ _ => cases hresult
        | _ => exact hresult

/-- The units that have sent signals, one entry for each signal. -/
def senders (h : History Local) : List Nat :=
  h.filterMap fun
    | .called unit (.signal _) => some unit
    | _ => none

theorem countP_senders (test : Nat → Bool) (h : History Local) :
    (senders h).countP test = sent (fun unit _ => test unit) h := by
  induction h with
  | nil => rfl
  | cons notice rest ih =>
      cases notice with
      | called unit call =>
          cases call with
          | signal kind =>
              simp only [senders, sent] at ih ⊢
              rw [List.filterMap_cons, List.countP_cons, List.countP_cons, ih]
          | _ => simpa [senders, sent] using ih
      | _ => simpa [senders, sent] using ih

theorem length_senders (h : History Local) : (senders h).length = sent anySignal h := by
  rw [← List.countP_true]
  exact countP_senders (fun _ => true) h

theorem caller_of_result? {result : Except Failure Unit} (hresult : s.result? = some result) :
    s.caller = .returned result := by
  unfold State.result? at hresult
  split at hresult
  next result' hcaller =>
    cases hresult
    exact hcaller
  · cases hresult

theorem Outcome.eq_success {outcome : Outcome} (hfailure : outcome.failure? = none) :
    outcome = .success := by
  cases outcome with
  | success => rfl
  | _ => cases hfailure

/-- How the units of a job that signals once have ended, whoever waits for them. -/
theorem Followed.signals_of_ended (hfollowed : Followed p h s) (hacc : Accounted p h s)
    (hjob : p.job.SignalsOnce p.units) {unit : Nat} {outcome : Outcome}
    (hended : Notice.ended unit outcome ∈ h) :
    sent (ofUnit unit) h = if outcome.failure? = none then 1 else 0 := by
  have hunit := hacc.lt_units (hacc.claimed_of_ended (mem_endedUnits.mpr ⟨outcome, hended⟩))
  obtain ⟨state, hvisits, hnext⟩ := hfollowed.ended unit outcome hended
  cases hfailure : outcome.failure? with
  | none => exact hjob.success unit hunit _ state outcome hvisits hnext hfailure
  | some failure => exact hjob.failure unit hunit _ state outcome failure hvisits hnext hfailure

/-- No unit sends more than one signal. -/
theorem Followed.sent_le_one (hfollowed : Followed p h s) (hacc : Accounted p h s)
    (hjob : p.job.SignalsOnce p.units) (unit : Nat) : sent (ofUnit unit) h ≤ 1 := by
  by_cases hclaimed : unit ∈ claimedUnits h
  · have hunit := hacc.lt_units hclaimed
    have hbalance := hacc.balance unit
    have hpos := List.count_pos_iff.mpr hclaimed
    by_cases hended : unit ∈ endedUnits h
    · obtain ⟨outcome, hended⟩ := mem_endedUnits.mp hended
      rw [hfollowed.signals_of_ended hacc hjob hended]
      split <;> omega
    · rw [List.count_eq_zero.mpr hended] at hbalance
      have hheld : 0 < total (Worker.busy unit) s.team := by omega
      obtain ⟨i, worker, hworker, hbusy⟩ := exists_of_total_pos hheld
      obtain ⟨position, hposition⟩ := position_of_busy hbusy
      exact hjob.once unit hunit _ position
        (hfollowed.standing i worker hworker unit position hposition)
  · rw [hfollowed.unclaimed unit hclaimed]
    exact Nat.zero_le 1

end Pool
end ApiSchema
