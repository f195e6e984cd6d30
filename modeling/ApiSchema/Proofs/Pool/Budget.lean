import ApiSchema.Proofs.Pool.Termination

/-!
How many steps a pool takes.

If every position of the units has a price that pays for the next move and its fee, the prices of
the units and the tolls of the threads together are a budget that every step of a thread lowers. So
the fixed schedule, given as many steps, lets the caller return.
-/

namespace ApiSchema
namespace Pool

variable {Local Shared : Type} {p : Plan Local Shared} {price : Position Local → Nat}
  {h : History Local} {s s' : State Local Shared}

/-- Prices that pay for every move of the units, with what the move adds to the tolls. -/
structure Job.Priced (job : Job Local Shared) (units : Nat) (price : Position Local → Nat) :
    Prop where
  follow : ∀ unit < units, ∀ signals earlier later, job.Visits unit signals earlier →
    job.Follows later earlier → price later + later.fee < price earlier
  finish : ∀ unit < units, ∀ signals state outcome, job.Visits unit signals (.ready state) →
    job.next state = .finish outcome → 9 < price (.ready state)

/-- A program with prices ends, because the prices go down. -/
theorem Job.Priced.terminates {job : Job Local Shared} {units : Nat}
    (hpriced : job.Priced units price) : job.Terminates units := by
  intro unit hunit
  have hacc : ∀ bound signals position, job.Visits unit signals position →
      price position < bound → Acc job.Follows position := by
    intro bound
    induction bound with
    | zero => exact fun _ _ _ hprice => absurd hprice (Nat.not_lt_zero _)
    | succ bound ih =>
        intro signals position hvisits hprice
        refine Acc.intro position fun later hfollows => ?_
        have hless := hpriced.follow unit hunit signals position later hvisits hfollows
        exact ih _ later (hvisits.follow hfollows) (by omega)
  exact hacc _ 0 _ Job.Visits.start (Nat.lt_succ_self _)

/-- What the units that have not ended and the threads may still use up. -/
def Plan.budget (p : Plan Local Shared) (price : Position Local → Nat) (s : State Local Shared) :
    Nat :=
  ((p.positions s).map price).sum + p.toll s

/-- What uses something up lowers the budget. -/
theorem Spends.budget_lt (hpriced : p.job.Priced p.units price) (hspends : Spends p s s') :
    p.budget price s' < p.budget price s := by
  have hsum : ∀ {a b : Multiset (Position Local)} (earlier later : Position Local),
      a + {earlier} = b + {later} →
        (a.map price).sum + price earlier = (b.map price).sum + price later := by
    intro a b earlier later heq
    have hprices := congrArg (fun positions => (positions.map price).sum) heq
    simpa using hprices
  unfold Plan.budget
  cases hspends with
  | toll same less =>
      rw [same]
      exact Nat.add_lt_add_left less _
  | follow claimed visits follows moved fee =>
      have hless := hpriced.follow _ claimed _ _ _ visits follows
      have hprices := hsum _ _ moved
      omega
  | @finish unit signals state outcome claimed visits next moved fee =>
      have hless := hpriced.finish _ claimed _ _ _ visits next
      have hprices := congrArg (fun positions => (positions.map price).sum) moved
      simp only [Multiset.map_add, Multiset.sum_add, Multiset.map_singleton,
        Multiset.sum_singleton] at hprices
      omega

/-- The budget of a run at its start. -/
theorem Plan.budget_initial {first : Nat}
    (hfirst : ∀ unit, price (.ready (p.job.start unit)) ≤ first) (latch : Latch) (shared : Shared) :
    p.budget price (p.initial latch shared) ≤ p.units * first + (4 * p.threads + 17) := by
  have hprices : ((p.positions (p.initial latch shared)).map price).sum ≤ p.units * first := by
    have hsum := List.sum_le_card_nsmul
      ((List.range p.units).map fun unit => price (.ready (p.job.start unit))) first ?_
    · simpa [Plan.positions, Plan.unclaimed, Plan.initial, Function.comp_def] using hsum
    · intro x hx
      obtain ⟨unit, _, rfl⟩ := List.mem_map.mp hx
      exact hfirst unit
  have htoll : p.toll (p.initial latch shared) ≤ 4 * p.threads + 17 := by
    by_cases hunits : p.units = 0
    · simp [Plan.toll, Plan.initial, hunits, Caller.toll]
    · simp only [Plan.toll, Plan.initial, hunits, if_false, Caller.toll, total_empty]
      simp
      omega
  exact Nat.add_le_add hprices htoll

/-- A caller that is gone is gone for good. -/
theorem Step.gone {label : Label} (hstep : Step p s label s') (hgone : s.caller.Gone) :
    s'.caller.Gone := by
  cases hstep with
  | caller hstep =>
      generalize s.caller = caller at hstep hgone
      cases hstep <;> trivial
  | refuse _ starting _ =>
      rw [starting] at hgone
      exact hgone.elim
  | _ => exact hgone

theorem Plan.scheduled_gone (hnext : p.scheduled s = some s') (hgone : s.caller.Gone) :
    s'.caller.Gone := by
  rcases Plan.scheduled_cases hnext with ⟨label, _, hstep⟩ | hexpire
  · exact (step_cases hstep).gone hgone
  · obtain ⟨waiting, _, _, hcaller, _⟩ := Plan.expire_cases hexpire
    rw [hcaller] at hgone
    exact hgone.elim

/-- The schedule lets a thread take a step whenever one can. -/
theorem Plan.scheduled_of_canStep (hcan : ∃ label ∈ s.candidates, p.CanStep s label) :
    ∃ label ∈ s.candidates, ∃ s', p.step s label = some s' ∧ p.scheduled s = some s' := by
  obtain ⟨label, hmem, later, hlater⟩ := hcan
  have hsome : (s.candidates.findSome? (p.step s)).isSome = true := by
    rw [List.findSome?_isSome_iff]
    exact ⟨label, hmem, by rw [hlater]; rfl⟩
  obtain ⟨s', hfound⟩ := Option.isSome_iff_exists.mp hsome
  obtain ⟨label', hmem', hstep⟩ := List.exists_of_findSome?_eq_some hfound
  exact ⟨label', hmem', s', hstep, by simp only [Plan.scheduled, hfound]⟩

/-- The schedule brings a run to its end in as many steps as the budget allows. -/
theorem Plan.Run.follow_gone {expected : Nat} {shared : Shared}
    (hfits : p.units + p.threads < 2 ^ 64) (hthreads : 1 ≤ p.threads)
    (hjob : p.job.Unblocked p.units) (hpriced : p.job.Priced p.units price)
    (hdone : ∀ h s, p.Run refusing (p.initial { expected := expected } shared) h s →
      (∀ worker ∈ s.team, worker = .stopped) → claimedUnits h = List.range p.units →
        s.common.latch.failure = none → s.common.latch.isComplete = true)
    (hrun : p.Run refusing (p.initial { expected := expected } shared) h s) (steps : Nat)
    (hsteps : p.budget price s ≤ steps) : (p.follow steps s).caller.Gone := by
  induction steps generalizing h s with
  | zero =>
      rcases hrun.progress hfits hthreads hjob (hdone h s hrun) with hgone | hcan
      · exact hgone
      · obtain ⟨label, hmem, s', hstep, _⟩ := Plan.scheduled_of_canStep hcan
        have hspends := hrun.spends hfits hjob.calls (ofThread_of_mem_candidates hmem) hstep
        have hless := hspends.budget_lt hpriced
        omega
  | succ steps ih =>
      rcases hrun.progress hfits hthreads hjob (hdone h s hrun) with hgone | hcan
      · exact Plan.follow_keeps (fun _ _ hgone hnext => Plan.scheduled_gone hnext hgone) hgone _
      · obtain ⟨label, hmem, s', hstep, hnext⟩ := Plan.scheduled_of_canStep hcan
        have hspends := hrun.spends hfits hjob.calls (ofThread_of_mem_candidates hmem) hstep
        have hless := hspends.budget_lt hpriced
        simp only [Plan.follow, hnext]
        exact ih (hrun.step label (within_of_mem_candidates hmem) hstep) (by omega)

/-- Under the schedule, time has not begun to pass while the caller has not come past the start of
its wait, and so the wait does not panic. -/
def State.OnTime (s : State Local Shared) : Prop :=
  s.caller.Unstarted → s.common.clock = 0 ∧ ¬ s.caller.Fallen

theorem Step.onTime {label : Label} (hwithin : Latch.overflows 0 p.limit = false)
    (hserves : s.caller.Serves p.limit) (hmem : label ∈ s.candidates) (hon : s.OnTime)
    (hstep : Step p s label s') : s'.OnTime := by
  intro hunstarted
  cases hstep with
  | tick _ | refuse _ _ _ | outside _ | bystander _ _ _ => simp [State.candidates] at hmem
  | worker index here hstep =>
      obtain ⟨hclock, hstands⟩ := hon hunstarted
      refine ⟨?_, hstands⟩
      cases hstep <;> exact hclock
  | caller hstep =>
      obtain ⟨hclock, hstands⟩ := hon (hstep.unstarted_of hserves hunstarted)
      refine ⟨hstep.clock_eq.trans hclock, fun hfallen => ?_⟩
      rcases hstep.fallen hserves hfallen with hold | hbeyond
      · exact hstands hold
      · rw [hclock, hwithin] at hbeyond
        cases hbeyond

/-- When its limit runs out, the caller is in the middle of its wait. -/
theorem Plan.onTime_expire (hexpire : p.expire s = some s') : s'.OnTime := by
  obtain ⟨waiting, _, later, hcaller, htick, hstep⟩ := Plan.expire_cases hexpire
  cases htick
  intro hunstarted
  cases step_cases hstep with
  | caller hstep =>
      rw [hcaller] at hstep
      cases hstep with
      | waitStep advance _ =>
          cases advance with
          | alarm _ _ _ _ _ => exact hunstarted.elim
      | waitReturn reply advance => cases advance

theorem Plan.Run.scheduled_onTime {around : Surroundings} {latch : Latch} {shared : Shared}
    (hwithin : Latch.overflows 0 p.limit = false)
    (hrun : p.Run around (p.initial latch shared) h s) (hon : s.OnTime)
    (hnext : p.scheduled s = some s') : s'.OnTime := by
  rcases Plan.scheduled_cases hnext with ⟨label, hmem, hstep⟩ | hexpire
  · exact (step_cases hstep).onTime hwithin hrun.serving.caller hmem hon
  · exact Plan.onTime_expire hexpire

section Schedule

variable {expected perUnit : Nat} {shared : Shared}

/-- The steps that the schedule is given are enough for units whose prices fit their moves. -/
theorem Plan.run_gone (hfits : p.units + p.threads < 2 ^ 64) (hthreads : 1 ≤ p.threads)
    (hjob : p.job.Unblocked p.units) (hpriced : p.job.Priced p.units price)
    (hfirst : ∀ unit, price (.ready (p.job.start unit)) ≤ 6 * perUnit + 10)
    (hdone : ∀ h s, p.Run refusing (p.initial { expected := expected } shared) h s →
      (∀ worker ∈ s.team, worker = .stopped) → claimedUnits h = List.range p.units →
        s.common.latch.failure = none → s.common.latch.isComplete = true) :
    (p.run perUnit { expected := expected } shared).caller.Gone := by
  have hbudget := Plan.budget_initial hfirst { expected := expected } shared
  refine Plan.Run.start.follow_gone hfits hthreads hjob hpriced hdone (p.stepBound perUnit) ?_
  unfold Plan.stepBound
  omega

/-- The schedule does not make the caller panic at a limit within the horizon. -/
theorem Plan.run_stands (hwithin : Latch.overflows 0 p.limit = false) (perUnit : Nat)
    (latch : Latch) (shared : Shared) : ¬ (p.run perUnit latch shared).caller.Fallen := by
  have hinitial : (p.initial latch shared).OnTime := by
    by_cases hunits : p.units = 0
    · simp [State.OnTime, Plan.initial, hunits, Caller.Unstarted]
    · simp [State.OnTime, Plan.initial, hunits, Caller.Fallen]
  have hkeeps : ∀ s s', (∃ h, p.Run refusing (p.initial latch shared) h s) ∧ s.OnTime →
      p.scheduled s = some s' →
        (∃ h, p.Run refusing (p.initial latch shared) h s') ∧ s'.OnTime := by
    rintro s s' ⟨⟨h, hrun⟩, hon⟩ hnext
    exact ⟨hrun.scheduled hnext, hrun.scheduled_onTime hwithin hon hnext⟩
  obtain ⟨_, hon⟩ := Plan.follow_keeps hkeeps ⟨⟨[], .start⟩, hinitial⟩ (p.stepBound perUnit)
  intro hfallen
  refine (hon ?_).2 hfallen
  show (p.run perUnit latch shared).caller.Unstarted
  cases hcaller : (p.run perUnit latch shared).caller with
  | unwinding | panicked => trivial
  | _ =>
      rw [hcaller] at hfallen
      exact hfallen.elim

end Schedule

end Pool
end ApiSchema
