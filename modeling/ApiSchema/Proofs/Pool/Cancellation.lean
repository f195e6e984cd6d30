import ApiSchema.Proofs.Pool.Alone
import ApiSchema.Proofs.Pool.Calm

/-!
How soon a pool stops once it is cancelled.

A worker looks at the flag before each claim and claims once for each look. So what is claimed after
the flag has gone up is claimed by workers that had looked before, one unit each. A worker that
raises the flag for a failure of its own unit claims nothing any more.

A worker that is alone stops at the first failure, and before that only if somebody else cancels.
-/

namespace ApiSchema
namespace Pool

variable {Local Shared : Type} {p : Plan Local Shared} {c c' : Common Shared} {me : Thread}
  {choice : Latch.Choice} {worker worker' : Worker Local} {h h' : History Local}
  {s s' s'' : State Local Shared} {label : Label} {around : Surroundings} {latch : Latch}
  {shared : Shared}

/-- One for a worker that has looked at the flag and is about to claim. -/
def Worker.toClaim : Worker Local → Nat
  | .claiming => 1
  | _ => 0

def Worker.inUnit : Worker Local → Nat
  | .running _ _ => 1
  | _ => 0

/-- The event raises the flag. -/
structure Plan.Raises (p : Plan Local Shared) (s : State Local Shared) (label : Label)
    (s' : State Local Shared) : Prop where
  next : p.step s label = some s'
  down : s.common.latch.cancelled = false
  up : s'.common.latch.cancelled = true

/-- With the flag up, a worker claims only if it was about to. -/
theorem WorkerStep.claims_after (hstep : WorkerStep p c me choice worker c' worker')
    (hcancelled : c.latch.cancelled = true) :
    (claimedUnits (p.workerNotices c worker)).length + Worker.toClaim worker' ≤
      Worker.toClaim worker := by
  cases hstep with
  | halt _ => exact Nat.le_refl 0
  | goOn uncancelled =>
      rw [uncancelled] at hcancelled
      cases hcancelled
  | claim some_left =>
      rw [workerNotices_claim some_left]
      exact Nat.le_refl 1
  | exhaust none_left =>
      rw [workerNotices_exhaust none_left]
      exact Nat.zero_le 1
  | succeed unit state outcome next _ | fail unit state outcome failure next _ =>
      rw [workerNotices_finish next]
      exact Nat.le_refl 0
  | access unit state act next =>
      rw [workerNotices_access next]
      exact Nat.le_refl 0
  | call unit state call resume next =>
      rw [workerNotices_call next]
      exact Nat.le_refl 0
  | unblock unit state state' next _ =>
      rw [workerNotices_unblock next]
      exact Nat.le_refl 0
  | callStep _ _ _ _ _ | callReturn _ _ _ _ _ =>
      rw [claimedUnits_calling]
      exact Nat.le_refl 0
  | failStep _ _ _ | failReturn _ _ _ =>
      rw [claimedUnits_failing]
      exact Nat.le_refl 0

/-- With the flag up, an event claims no more than it takes from the workers about to claim. -/
theorem Step.claims_after (hstep : Step p s label s')
    (hcancelled : s.common.latch.cancelled = true) :
    (claimedUnits (p.notices s label)).length + total Worker.toClaim s'.team ≤
      total Worker.toClaim s.team := by
  cases hstep with
  | tick _ | refuse _ _ _ | outside _ | bystander _ _ _ => exact (Nat.zero_add _).le
  | caller hstep =>
      generalize s.caller = caller at hstep
      cases hstep <;> simp [Plan.notices, claimedUnits, Worker.toClaim]
  | @worker index choice worker worker' common here hstep =>
      rw [Plan.notices_worker here]
      have hset := total_set Worker.toClaim here worker'
      have hclaims := hstep.claims_after hcancelled
      show _ + total Worker.toClaim (s.team.setIfInBounds index worker') ≤ _
      omega

/-- From a state with the flag up, no more units are claimed than workers were about to claim. -/
theorem Plan.Run.claims_after (hrun : p.Run around s h s')
    (hcancelled : s.common.latch.cancelled = true) :
    s'.common.latch.cancelled = true ∧
      (claimedUnits h).length + total Worker.toClaim s'.team ≤ total Worker.toClaim s.team := by
  induction hrun with
  | start => exact ⟨hcancelled, (Nat.zero_add _).le⟩
  | step label _ _ hnext ih =>
      obtain ⟨hup, hle⟩ := ih
      have hstep := step_cases hnext
      have hclaims := hstep.claims_after hup
      refine ⟨hstep.cancelled_mono hup, ?_⟩
      rw [claimedUnits_append, List.length_append]
      omega

theorem total_add (f g : Worker Local → Nat) (team : Array (Worker Local)) :
    total (fun worker => f worker + g worker) team = total f team + total g team :=
  List.sum_map_add

/-- A worker about to claim, one in a unit and one that has retired are different ones. -/
theorem total_shares_le (team : Array (Worker Local)) :
    total Worker.toClaim team + total Worker.inUnit team + total Worker.retired team ≤
      team.size := by
  rw [← total_add, ← total_add]
  apply total_le_size
  intro worker
  cases worker <;> simp [Worker.toClaim, Worker.inUnit, Worker.retired]

/-- A worker that raises the flag while it reports a failure has retired. -/
theorem WorkerStep.retired {unit : Nat} {phase : Latch.Phase}
    (hstep : WorkerStep p c me choice (.failing unit phase) c' worker') :
    Worker.retired worker' = 1 := by
  cases hstep <;> rfl

/-- Whoever takes a step in reporting a failure has retired. -/
theorem Step.retired_pos {i unit : Nat} {phase : Latch.Phase}
    (here : s.team[i]? = some (.failing unit phase)) (hstep : Step p s (.worker i choice) s') :
    1 ≤ total Worker.retired s'.team := by
  cases hstep with
  | @worker _ _ worker worker' common hworker hstep =>
      rw [here] at hworker
      cases hworker
      have hlt := (Array.getElem?_eq_some_iff.mp here).1
      have hat : (s.team.setIfInBounds i worker')[i]? = some worker' := by simp [hlt]
      have hle := le_total Worker.retired hat
      rwa [hstep.retired] at hle

theorem Accounted.step_team_le (hacc : Accounted p h s) (hstep : Step p s label s') :
    s'.team.size ≤ p.threads := by
  cases hstep with
  | tick _ | refuse _ _ _ | outside _ | bystander _ _ _ => exact hacc.team_le
  | caller hstep =>
      generalize s.caller = caller at hstep
      cases hstep with
      | spawn missing => simpa using Nat.succ_le_of_lt missing
      | _ => exact hacc.team_le
  | worker index here hstep => simpa using hacc.team_le

/-- How soon a pool stops that is run at a latch. -/
structure StopsPromptly (p : Plan Local Shared) (around : Surroundings) (latch : Latch)
    (shared : Shared) : Prop where
  /-- After the flag has gone up each worker begins one unit at most. A unit that a worker was in by
  then may not have taken its first step, so it counts. -/
  after : ∀ {h h' s label s' s''}, p.Run around (p.initial latch shared) h s →
    p.Raises s label s' → p.Run around s' h' s'' →
      (claimedUnits h').length + total Worker.inUnit s'.team ≤ p.threads
  /-- The worker whose failed unit has raised the flag begins none. -/
  after_failure : ∀ {h h' s i choice unit phase s' s''},
    p.Run around (p.initial latch shared) h s →
      s.team[i]? = some (.failing unit phase) → p.Raises s (.worker i choice) s' →
        p.Run around s' h' s'' →
          (claimedUnits h').length + total Worker.inUnit s'.team + 1 ≤ p.threads
  /-- If the flag is up from the start, no unit is begun. -/
  cancelled : latch.cancelled = true → ∀ {h s}, p.Run around (p.initial latch shared) h s →
    claimedUnits h = []
  /-- A lone worker begins the units up to the first that fails. -/
  alone : p.workers = 1 → ∀ {h s}, p.Run around (p.initial latch shared) h s →
    ∀ {unit failure}, FailedAs h unit failure → claimedUnits h = List.range (unit + 1) ∧
      ∀ earlier < unit, Notice.ended earlier .success ∈ h
  /-- If nothing else cancels, a lone worker goes as far as the least of the units that fail. -/
  least : p.workers = 1 → ∀ {expected}, latch = { expected := expected } → p.limit = none →
    (∀ call, around.calls call → Harmless call) → (∀ text, ¬ around.refusals text) → ∀ {h s},
      p.Run around (p.initial latch shared) h s → CallsHarmless h → s.result? ≠ none →
        ∀ fails : Nat → Prop, (∀ unit outcome, Notice.ended unit outcome ∈ h →
          (outcome.failure? ≠ none ↔ fails unit)) →
            ∀ {unit}, unit < p.units → fails unit → (∀ earlier < unit, ¬ fails earlier) →
              claimedUnits h = List.range (unit + 1)

/-- What is begun after the flag has gone up, with what was begun before and is under way. -/
theorem Plan.Run.after_raised (hfits : p.units + p.threads < 2 ^ 64)
    (hrun : p.Run around (p.initial latch shared) h s) (hraises : p.Raises s label s')
    (hrun' : p.Run around s' h' s'') :
    (claimedUnits h').length + total Worker.inUnit s'.team + total Worker.retired s'.team ≤
      p.threads := by
  have hteam := (hrun.accounted hfits).step_team_le (step_cases hraises.next)
  have hclaims := (hrun'.claims_after hraises.up).2
  have hshares := total_shares_le s'.team
  omega

/-- If the flag is up from the start, nothing is claimed. -/
theorem Plan.Run.nothing_claimed (hcancelled : latch.cancelled = true)
    (hrun : p.Run around (p.initial latch shared) h s) : claimedUnits h = [] := by
  have hclaims := (hrun.claims_after hcancelled).2
  rw [show total Worker.toClaim (p.initial latch shared).team = 0 from rfl] at hclaims
  exact List.length_eq_zero_iff.mp (by omega)

/-- A lone worker that nobody cancels goes as far as the least of the units that fail. -/
theorem Plan.Run.up_to_least {expected : Nat} (hfits : p.units + p.threads < 2 ^ 64)
    (hone : p.threads ≤ 1) (hlimit : p.limit = none)
    (hquiet : ∀ call, around.calls call → Harmless call)
    (hrefusals : ∀ text, ¬ around.refusals text)
    (hrun : p.Run around (p.initial { expected := expected } shared) h s)
    (hcalls : CallsHarmless h) {result : Except Failure Unit}
    (hreturned : s.caller = .returned result) {fails : Nat → Prop}
    (hfails : ∀ unit outcome, Notice.ended unit outcome ∈ h →
      (outcome.failure? ≠ none ↔ fails unit))
    {unit : Nat} (hunit : unit < p.units) (hthreads : 1 ≤ p.threads) (hfail : fails unit)
    (hleast : ∀ earlier < unit, ¬ fails earlier) : claimedUnits h = List.range (unit + 1) := by
  have hacc := hrun.accounted hfits
  have halone := hrun.alone hfits hone
  have hstopped := hacc.stopped_of_gone (by rw [hreturned]; trivial)
  obtain ⟨first, failure, hfirst⟩ : ∃ first failure, FailedAs h first failure := by
    by_contra hnone
    have hunfailed : Unfailed h := by
      intro unit' outcome hmem
      cases hfailure : outcome.failure? with
      | none => rfl
      | some failure => exact absurd ⟨unit', failure, outcome, hmem, hfailure⟩ hnone
    have hcalm := hrun.calm hfits hlimit hquiet hrefusals hunfailed hcalls
    have hall := hcalm.all_claimed hacc (hrun.staffed hfits hrefusals) hthreads hreturned
    have hclaimed : unit ∈ claimedUnits h := by
      rw [hall]
      exact List.mem_range.mpr hunit
    obtain ⟨outcome, hmem⟩ :=
      mem_endedUnits.mp (hacc.ended_of_stopped hstopped hclaimed)
    exact (hfails unit outcome hmem).mpr hfail (hunfailed unit outcome hmem)
  have hlast := (halone.failed first failure hfirst).1
  rcases Nat.lt_trichotomy first unit with hlt | rfl | hgt
  · obtain ⟨outcome, hmem, hfailure⟩ := hfirst
    exact absurd ((hfails first outcome hmem).mp (by simp [hfailure])) (hleast first hlt)
  · exact hlast
  · have hsuccess := halone.earlier hacc hfirst hgt
    exact absurd rfl ((hfails unit _ hsuccess).mpr hfail)

/-- Cancelling stops a pool within one unit for each worker, whatever the job and whoever cancels,
in every interleaving. -/
theorem Plan.stopsPromptly (p : Plan Local Shared) (hfits : p.units + p.workers < 2 ^ 64)
    (around : Surroundings) (latch : Latch) (shared : Shared) :
    StopsPromptly p around latch shared := by
  have hthreads : p.threads ≤ p.workers := Nat.min_le_left _ _
  have hfits : p.units + p.threads < 2 ^ 64 := by omega
  refine ⟨?_, ?_, fun hup h s hrun => hrun.nothing_claimed hup, ?_, ?_⟩
  · intro h h' s label s' s'' hrun hraises hrun'
    have hafter := hrun.after_raised hfits hraises hrun'
    omega
  · intro h h' s i choice unit phase s' s'' hrun here hraises hrun'
    have hafter := hrun.after_raised hfits hraises hrun'
    have hretired := Step.retired_pos here (step_cases hraises.next)
    omega
  · intro hone h s hrun unit failure hfailed
    have halone := hrun.alone hfits (hthreads.trans hone.le)
    exact ⟨(halone.failed unit failure hfailed).1,
      fun earlier hlt => halone.earlier (hrun.accounted hfits) hfailed hlt⟩
  · rintro hone expected rfl hlimit hquiet hrefusals h s hrun hcalls hresult fails hfails unit hunit
      hfail hleast
    obtain ⟨result, hresult⟩ := Option.ne_none_iff_exists'.mp hresult
    have hpos : 1 ≤ p.threads := Nat.le_min.mpr ⟨hone.ge, Nat.one_le_of_lt hunit⟩
    exact hrun.up_to_least hfits (hthreads.trans hone.le) hlimit hquiet hrefusals hcalls
      (caller_of_result? hresult) hfails hunit hpos hfail hleast

/-- The second of three units fails. -/
def failingScripts : Nat → Script
  | 1 => ⟨[], .error (.internal "unit 1")⟩
  | _ => ⟨[.signal .property], .success⟩

def failingPlan : Plan ScriptState (List Nat) where
  units := 3
  workers := 1
  limit := none
  job := scriptJob failingScripts

/-- A lone worker does not begin the third unit after the second has failed. -/
theorem stopsPromptly_failing :
    failingPlan.units + failingPlan.workers < 2 ^ 64 ∧
      ∃ h s, failingPlan.Run nobody (failingPlan.initial { expected := 3 } []) h s ∧
        s.result? = some (.error (.internal "unit 1")) ∧ claimedUnits h = [0, 1] := by
  have hfits : failingPlan.units + failingPlan.threads < 2 ^ 64 := by decide
  obtain ⟨h, hrun⟩ := failingPlan.exists_run nobody 3 { expected := 3 } []
  have hresult : (failingPlan.run 3 { expected := 3 } []).result? =
      some (.error (.internal "unit 1")) := by rfl
  have hcalls : CallsHarmless h := by
    refine fun unit call hcalled => hrun.called_permitted hfits ?_ hcalled
    intro unit _ signals call resume hvisits
    obtain ⟨kind, _, rfl, _⟩ := Script.stands hvisits
    trivial
  have hfails : ∀ unit outcome, Notice.ended unit outcome ∈ h →
      (outcome.failure? ≠ none ↔ unit = 1) := by
    intro unit outcome hended
    obtain ⟨state, hvisits, hnext⟩ := (hrun.followed hfits).ended unit outcome hended
    obtain ⟨rfl, _⟩ := Script.finishes hvisits hnext
    match unit with
    | 0 | 1 | _ + 2 => simp [failingScripts, Outcome.failure?]
  exact ⟨by decide, h, _, hrun, hresult,
    (failingPlan.stopsPromptly (by decide) nobody { expected := 3 } []).least rfl rfl rfl
      (fun _ => False.elim) (fun _ => id) hrun hcalls (by simp [hresult]) _ hfails (by decide) rfl
        (fun _ hlt => Nat.ne_of_lt hlt)⟩

end Pool
end ApiSchema
