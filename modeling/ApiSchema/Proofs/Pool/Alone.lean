import ApiSchema.Proofs.Pool.Verdict

/-!
A pool with one worker.

The worker claims a unit only after the one before has succeeded. So the unit in its hands is the
one claimed last, and so is the unit that has failed, if one has; all before it have succeeded.
-/

namespace ApiSchema
namespace Pool

variable {Local Shared : Type} {p : Plan Local Shared} {c' : Common Shared} {me : Thread}
  {choice : Latch.Choice} {worker worker' : Worker Local} {h : History Local}
  {s s' : State Local Shared} {label : Label} {around : Surroundings} {latch : Latch}
  {shared : Shared}

/-- One for a worker that will take on no more units. -/
def Worker.retired : Worker Local → Nat
  | .failing _ _ | .stopped => 1
  | _ => 0

/-- What is known of a pool with one worker: the unit in its hands is the one claimed last, and it
has retired if a unit has failed, which is then the one claimed last. -/
structure Alone (h : History Local) (s : State Local Shared) : Prop where
  idle : s.team = #[] → claimedUnits h = []
  busy : ∀ worker ∈ s.team, ∀ unit, Worker.busy unit worker = 1 →
    claimedUnits h = List.range (unit + 1)
  failed : ∀ unit failure, FailedAs h unit failure →
    claimedUnits h = List.range (unit + 1) ∧ ∀ worker ∈ s.team, Worker.retired worker = 1

theorem FailedAs.of_append {notices : History Local} {unit : Nat} {failure : Failure}
    (hfailed : FailedAs (h ++ notices) unit failure)
    (hended : ∀ unit outcome, Notice.ended unit outcome ∈ notices → outcome.failure? = none) :
    FailedAs h unit failure := by
  obtain ⟨outcome, hmem, hfailure⟩ := hfailed
  rcases List.mem_append.mp hmem with hbefore | hnow
  · exact ⟨outcome, hbefore, hfailure⟩
  · rw [hended unit outcome hnow] at hfailure
    cases hfailure

/-- The only worker of a team, once it has been replaced. -/
theorem eq_of_mem_alone {team : Array (Worker Local)} {i : Nat} {other : Worker Local}
    (hsize : team.size ≤ 1) (here : team[i]? = some worker)
    (hother : other ∈ team.setIfInBounds i worker') : other = worker' := by
  obtain ⟨j, hj, rfl⟩ := Array.mem_iff_getElem.mp hother
  have hi := (Array.getElem?_eq_some_iff.mp here).1
  have hij : j = i := by
    rw [Array.size_setIfInBounds] at hj
    omega
  subst hij
  exact Array.getElem_setIfInBounds_self hj

namespace Alone

/-- A step in which nothing is claimed and no unit fails. -/
theorem of_quiet (halone : Alone h s) (hsize : s.team.size ≤ 1) {i : Nat}
    (here : s.team[i]? = some worker) {notices : History Local}
    (hclaims : claimedUnits notices = [])
    (hended : ∀ unit outcome, Notice.ended unit outcome ∈ notices → outcome.failure? = none)
    (hbusy : ∀ unit, Worker.busy unit worker' = 1 → Worker.busy unit worker = 1)
    (hretired : Worker.retired worker = 1 → Worker.retired worker' = 1) :
    Alone (h ++ notices) { s with common := c', team := s.team.setIfInBounds i worker' } := by
  have hmem := Array.mem_of_getElem? here
  have hsame : claimedUnits (h ++ notices) = claimedUnits h := by simp [hclaims]
  refine ⟨fun hempty => ?_, fun other hother unit hunit => ?_, fun unit failure hfailed => ?_⟩
  · rw [hsame]
    exact halone.idle (Array.setIfInBounds_eq_empty_iff.mp hempty)
  · obtain rfl := eq_of_mem_alone hsize here hother
    rw [hsame]
    exact halone.busy worker hmem unit (hbusy unit hunit)
  · obtain ⟨hlast, hall⟩ := halone.failed unit failure (hfailed.of_append hended)
    refine ⟨hsame.trans hlast, fun other hother => ?_⟩
    obtain rfl := eq_of_mem_alone hsize here hother
    exact hretired (hall worker hmem)

/-- While a worker goes on, no unit has failed. -/
theorem unfailed (halone : Alone h s) {i : Nat} (here : s.team[i]? = some worker)
    (hretired : Worker.retired worker ≠ 1) (unit : Nat) (failure : Failure) :
    ¬ FailedAs h unit failure :=
  fun hfailed =>
    hretired ((halone.failed unit failure hfailed).2 worker (Array.mem_of_getElem? here))

theorem ne_empty {team : Array (Worker Local)} {i : Nat} (here : team[i]? = some worker)
    (worker' : Worker Local) : team.setIfInBounds i worker' ≠ #[] := by
  intro hempty
  rw [Array.setIfInBounds_eq_empty_iff.mp hempty] at here
  cases here

theorem worker_step (halone : Alone h s) (hsize : s.team.size ≤ 1) {i : Nat}
    (here : s.team[i]? = some worker)
    (hacc : Accounted p h s)
    (hstep : WorkerStep p s.common me choice worker c' worker') :
    Alone (h ++ p.workerNotices s.common worker)
      { s with common := c', team := s.team.setIfInBounds i worker' } := by
  cases hstep with
  | halt _ | goOn _ =>
      exact halone.of_quiet hsize here rfl (by simp [Plan.workerNotices]) (by simp [Worker.busy])
        (by simp [Worker.retired])
  | claim some_left =>
      rw [workerNotices_claim some_left]
      have hlast : claimedUnits (h ++ [Notice.claimed s.common.cursor.toNat]) =
          List.range (s.common.cursor.toNat + 1) := by
        rw [claimedUnits_append, hacc.claims, Nat.min_eq_left some_left.le, List.range_succ]
        rfl
      refine ⟨fun hempty => absurd hempty (ne_empty here _), fun other hother unit hunit => ?_,
        fun unit failure hfailed => ?_⟩
      · obtain rfl := eq_of_mem_alone hsize here hother
        obtain rfl : s.common.cursor.toNat = unit := by simpa [Worker.busy] using hunit
        exact hlast
      · exact absurd (hfailed.of_append (by simp))
          (halone.unfailed here (by simp [Worker.retired]) unit failure)
  | exhaust none_left =>
      rw [workerNotices_exhaust none_left]
      exact halone.of_quiet hsize here rfl (by simp) (by simp [Worker.busy])
        (by simp [Worker.retired])
  | succeed unit state outcome next success =>
      rw [workerNotices_finish next]
      refine halone.of_quiet hsize here rfl ?_ (by simp [Worker.busy]) (by simp [Worker.retired])
      intro unit' outcome' hended
      cases List.mem_singleton.mp hended
      exact success
  | fail unit state outcome failure next failed =>
      rw [workerNotices_finish next]
      have hlast : claimedUnits (h ++ [Notice.ended unit outcome]) = List.range (unit + 1) := by
        have hhere := halone.busy _ (Array.mem_of_getElem? here) unit (by simp [Worker.busy])
        simpa [claimedUnits] using hhere
      refine ⟨fun hempty => absurd hempty (ne_empty here _), fun other hother unit' hunit => ?_,
        fun unit' failure' hfailed => ?_⟩
      · obtain rfl := eq_of_mem_alone hsize here hother
        cases hunit
      · obtain ⟨outcome', hmem, hfailure⟩ := hfailed
        rcases List.mem_append.mp hmem with hbefore | hnow
        · exact absurd ⟨outcome', hbefore, hfailure⟩
            (halone.unfailed here (by simp [Worker.retired]) unit' failure')
        · cases List.mem_singleton.mp hnow
          refine ⟨hlast, fun other hother => ?_⟩
          obtain rfl := eq_of_mem_alone hsize here hother
          rfl
  | access unit state act next | call unit state call resume next
  | unblock unit state state' next _ =>
      refine halone.of_quiet hsize here ?_ ?_ (by simp [Worker.busy]) (by simp [Worker.retired])
        <;> simp [Plan.workerNotices, next, claimedUnits]
  | callStep unit call resume _ _ | callReturn unit call reply resume _ =>
      refine halone.of_quiet hsize here (claimedUnits_calling _ _ _ _) ?_ (by simp [Worker.busy])
        (by simp [Worker.retired])
      intro unit' outcome hended
      exact absurd hended (Followed.not_mem_of_unended (endedUnits_calling _ _ _ _) _ _)
  | failStep unit _ _ | failReturn unit reply _ =>
      refine halone.of_quiet hsize here (claimedUnits_failing _ _) ?_ (by simp [Worker.busy])
        (by simp [Worker.retired])
      intro unit' outcome hended
      exact absurd hended (Followed.not_mem_of_unended (endedUnits_failing _ _) _ _)

theorem caller_step (halone : Alone h s) (hone : p.threads ≤ 1)
    (hstep : CallerStep p s choice s.caller s') : Alone (h ++ []) s' := by
  rw [List.append_nil]
  generalize s.caller = caller at hstep
  cases hstep with
  | spawn missing =>
      have hempty : s.team = #[] := Array.size_eq_zero_iff.mp (by omega)
      have hnone := halone.idle hempty
      refine ⟨fun _ => hnone, fun worker hworker unit hunit => ?_, fun unit failure hfailed => ?_⟩
      · rw [hempty] at hworker
        obtain rfl : worker = .checking := by simpa using hworker
        cases hunit
      · obtain ⟨hlast, _⟩ := halone.failed unit failure hfailed
        rw [hnone] at hlast
        simp [List.range_succ] at hlast
  | _ => exact ⟨halone.idle, halone.busy, halone.failed⟩

theorem step (halone : Alone h s) (hone : p.threads ≤ 1) (hacc : Accounted p h s)
    (hstep : Step p s label s') : Alone (h ++ p.notices s label) s' := by
  cases hstep with
  | tick _ | refuse _ _ _ | outside _ | bystander _ _ _ =>
      simp only [Plan.notices, List.append_nil]
      exact ⟨halone.idle, halone.busy, halone.failed⟩
  | caller hstep => exact halone.caller_step hone hstep
  | worker index here hstep =>
      rw [Plan.notices_worker here]
      exact halone.worker_step (hacc.team_le.trans hone) here hacc hstep

end Alone

theorem Plan.Run.alone (hfits : p.units + p.threads < 2 ^ 64) (hone : p.threads ≤ 1)
    (hrun : p.Run around (p.initial latch shared) h s) : Alone h s := by
  induction hrun with
  | start =>
      refine ⟨fun _ => rfl, by simp [Plan.initial], ?_⟩
      rintro unit failure ⟨outcome, hmem, _⟩
      cases hmem
  | step label before _ hnext ih => exact ih.step hone (before.accounted hfits) (step_cases hnext)

/-- The units before one that failed have succeeded, if there is one worker. -/
theorem Alone.earlier (halone : Alone h s) (hacc : Accounted p h s) {unit earlier : Nat}
    {failure : Failure} (hfailed : FailedAs h unit failure) (hlt : earlier < unit) :
    Notice.ended earlier .success ∈ h := by
  obtain ⟨hlast, hretired⟩ := halone.failed unit failure hfailed
  have hnone : total (Worker.busy earlier) s.team = 0 := by
    refine total_eq_zero fun worker hworker => ?_
    have hworker := hretired worker hworker
    cases worker <;> first | rfl | cases hworker
  have hclaimed : 0 < (claimedUnits h).count earlier := by
    rw [List.count_pos_iff, hlast, List.mem_range]
    omega
  have hbalance := hacc.balance earlier
  have hended : earlier ∈ endedUnits h := List.count_pos_iff.mp (by omega)
  obtain ⟨outcome, hmem⟩ := mem_endedUnits.mp hended
  cases hfailure : outcome.failure? with
  | none => rwa [Outcome.eq_success hfailure] at hmem
  | some failure' =>
      obtain ⟨hlast', _⟩ := halone.failed earlier failure' ⟨outcome, hmem, hfailure⟩
      rw [hlast] at hlast'
      have hlength := congrArg List.length hlast'
      simp only [List.length_range] at hlength
      omega

end Pool
end ApiSchema
