import ApiSchema.Proofs.Pool.Reasons

/-!
A pool in which nothing goes wrong.

As long as no unit fails, every worker can be started, the caller has no limit and nobody makes a
call that cancels, the flag stays down and nothing is recorded. Then workers stop for want of units
only, and when the caller returns every unit has been claimed.
-/

namespace ApiSchema
namespace Pool

variable {Local Shared : Type} {p : Plan Local Shared} {c c' : Common Shared} {me : Thread}
  {choice : Latch.Choice} {worker worker' : Worker Local} {h : History Local}
  {s s' : State Local Shared} {label : Label} {around : Surroundings} {latch : Latch}
  {shared : Shared}

/-- Whether nothing is about to raise the flag on behalf of a worker. -/
def Worker.Calm : Worker Local → Prop
  | .calling _ call _ _ => Harmless call
  | .failing _ _ => False
  | _ => True

/-- A pool in which nothing has gone wrong: the flag is down, and workers stop for want of units
only. -/
structure Calm (p : Plan Local Shared) (s : State Local Shared) : Prop where
  uncancelled : s.common.latch.cancelled = false
  unfailed : s.common.latch.failure = none
  workers : ∀ worker ∈ s.team, worker.Calm
  caller : ¬ s.caller.GaveUp
  stopped : .stopped ∈ s.team → p.units ≤ s.common.cursor.toNat

def Unfailed (h : History Local) : Prop :=
  ∀ unit outcome, Notice.ended unit outcome ∈ h → outcome.failure? = none

/-- The units have made harmless calls only. -/
def CallsHarmless (h : History Local) : Prop :=
  ∀ unit call, Notice.called unit call ∈ h → Harmless call

/-- A harmless call leaves the latch as calm as it was. -/
theorem calm_advance {call : Latch.Call} {l l' : Latch} {now : Nat} {phase phase' : Latch.Phase}
    (hdown : l.cancelled = false) (hnone : l.failure = none) (hharmless : Harmless call)
    (hserves : phase.Serves call) (hadvance : Latch.Advance l me now choice phase l' phase') :
    l'.cancelled = false ∧ l'.failure = none := by
  obtain ⟨hfailure, hcancelled⟩ := hharmless.advance hserves hadvance
  refine ⟨?_, hfailure.trans hnone⟩
  cases hup : l'.cancelled with
  | false => rfl
  | true =>
      rw [hcancelled hup] at hdown
      cases hdown

/-- A caller without a limit gives up only for a failure. -/
theorem CallerStep.gaveUp_cases (hlimit : p.limit = none) (hserves : s.caller.Serves p.limit)
    (hstep : CallerStep p s choice s.caller s') (hgave : s'.caller.GaveUp) :
    s.caller.GaveUp ∨ s.common.latch.failure.isSome = true := by
  rw [hlimit] at hserves
  generalize hcaller : s.caller = caller at hstep hserves
  cases hstep with
  | spawn _ =>
      rw [show Caller.GaveUp _ = Caller.GaveUp s.caller from rfl, hcaller] at hgave
      exact hgave.elim
  | begin _ | failStep _ _ | failReturn _ _ | escape _ => exact hgave.elim
  | waitStep advance _ =>
      have hserves' := advance.serves hserves
      rcases phase_of_gaveUp hgave with ⟨start, limit, rfl⟩ | ⟨failure, rfl⟩
      · cases hserves'
      · cases advance with
        | lock _ locked => exact absurd locked (Latch.Phase.locked?_ne_releasing _ _)
        | refuse _ _ failed => exact Or.inr (by rw [failed]; rfl)
        | giveUp _ _ => cases hserves
  | waitReturn reply advance =>
      cases advance with
      | lock _ locked => exact absurd locked (Latch.Phase.locked?_ne_finished _ _)
      | cancel | peek | pass _ _ | overflow _ _ _ => exact hgave.elim
      | release _ =>
          obtain ⟨result, rfl⟩ := hserves
          cases result with
          | ok _ => exact hgave.elim
          | error _ => exact Or.inl trivial
  | cancel _ => exact Or.inl trivial
  | join result _ _ | finish result _ _ =>
      cases result with
      | ok _ => exact hgave.elim
      | error _ => exact Or.inl trivial

/-- What a step of a worker keeps calm, if it neither fails its unit nor begins a harmful call. -/
theorem WorkerStep.calm (hdown : c.latch.cancelled = false) (hnone : c.latch.failure = none)
    (hcalm : worker.Calm) (hserves : worker.Serves)
    (hunfailed : Unfailed (p.workerNotices c worker))
    (hcalls : CallsHarmless (p.workerNotices c worker))
    (hcursor : c.cursor.toNat ≤ c'.cursor.toNat)
    (hstep : WorkerStep p c me choice worker c' worker') :
    (c'.latch.cancelled = false ∧ c'.latch.failure = none) ∧ worker'.Calm ∧
      (worker' = .stopped → p.units ≤ c'.cursor.toNat) := by
  cases hstep with
  | halt cancelled =>
      rw [hdown] at cancelled
      cases cancelled
  | exhaust none_left => exact ⟨⟨hdown, hnone⟩, trivial, fun _ => none_left.trans hcursor⟩
  | fail unit state outcome failure next failed =>
      rw [workerNotices_finish next] at hunfailed
      rw [hunfailed unit outcome List.mem_cons_self] at failed
      cases failed
  | call unit state call resume next =>
      rw [workerNotices_call next] at hcalls
      exact ⟨⟨hdown, hnone⟩, hcalls unit call List.mem_cons_self, nofun⟩
  | callStep unit call resume advance _ =>
      exact ⟨calm_advance hdown hnone hcalm hserves advance, hcalm, nofun⟩
  | callReturn unit call reply resume advance =>
      exact ⟨calm_advance hdown hnone hcalm hserves advance, trivial, nofun⟩
  | failStep _ _ _ | failReturn _ _ _ => exact hcalm.elim
  | _ => exact ⟨⟨hdown, hnone⟩, trivial, nofun⟩

namespace Calm

theorem caller_step (hcalm : Calm p s) (hlimit : p.limit = none)
    (hserves : s.caller.Serves p.limit) (hhired : ∀ phase, s.caller ≠ .failing phase)
    (hstep : CallerStep p s choice s.caller s') : Calm p s' := by
  have hgave : ¬ s'.caller.GaveUp := by
    intro hgave
    rcases hstep.gaveUp_cases hlimit hserves hgave with hold | hsome
    · exact hcalm.caller hold
    · rw [hcalm.unfailed] at hsome
      cases hsome
  have hharmless : Harmless (.wait p.limit) := by
    rw [hlimit]
    trivial
  have hcaller := hcalm.caller
  generalize s.caller = caller at hstep hcaller hserves hhired
  cases hstep with
  | spawn _ =>
      refine ⟨hcalm.uncancelled, hcalm.unfailed, fun worker hworker => ?_, hgave, fun h => ?_⟩
      · rcases Array.mem_push.mp hworker with hold | rfl
        · exact hcalm.workers worker hold
        · trivial
      · exact hcalm.stopped (by simpa using h)
  | waitStep advance _ | waitReturn reply advance =>
      obtain ⟨hdown, hnone⟩ :=
        calm_advance hcalm.uncancelled hcalm.unfailed hharmless hserves advance
      exact ⟨hdown, hnone, hcalm.workers, hgave, hcalm.stopped⟩
  | failStep _ _ | failReturn _ _ => exact absurd rfl (hhired _)
  | cancel _ => exact absurd trivial hcaller
  | begin _ | join _ _ _ | finish _ _ _ | escape _ =>
      exact ⟨hcalm.uncancelled, hcalm.unfailed, hcalm.workers, hgave, hcalm.stopped⟩

theorem step (hcalm : Calm p s) (hlimit : p.limit = none) (hacc : Accounted p h s)
    (hstaffed : Staffed p s)
    (hfits : p.units + p.threads < 2 ^ 64) (hserving : Serving p around s)
    (hquiet : ∀ call, around.calls call → Harmless call) (hunfailed : Unfailed (p.notices s label))
    (hcalls : CallsHarmless (p.notices s label)) (hstep : Step p s label s') : Calm p s' := by
  cases hstep with
  | tick _ | outside _ =>
      exact ⟨hcalm.uncancelled, hcalm.unfailed, hcalm.workers, hcalm.caller, hcalm.stopped⟩
  | caller hstep => exact hcalm.caller_step hlimit hserving.caller hstaffed.hired hstep
  | refuse text _ _ =>
      exact ⟨hcalm.uncancelled, hcalm.unfailed, hcalm.workers, id, hcalm.stopped⟩
  | @worker i choice worker worker' common here hstep =>
      have hmem := Array.mem_of_getElem? here
      have hcursor := hacc.cursor_mono hfits (Step.worker i here hstep)
      rw [Plan.notices_worker here] at hunfailed hcalls
      obtain ⟨⟨hdown, hnone⟩, hworker, hstopped⟩ := hstep.calm hcalm.uncancelled hcalm.unfailed
        (hcalm.workers worker hmem) (hserving.workers worker hmem) hunfailed hcalls hcursor
      refine ⟨hdown, hnone, fun other hother => ?_, hcalm.caller, fun hover => ?_⟩
      · rcases Array.mem_or_eq_of_mem_setIfInBounds hother with hold | rfl
        · exact hcalm.workers other hold
        · exact hworker
      · rcases Array.mem_or_eq_of_mem_setIfInBounds hover with hold | heq
        · exact (hcalm.stopped hold).trans hcursor
        · exact hstopped heq.symm
  | bystander index here advance =>
      obtain ⟨call, hallowed, hserves⟩ := hserving.bystanders _ (Array.mem_of_getElem? here)
      obtain ⟨hdown, hnone⟩ :=
        calm_advance hcalm.uncancelled hcalm.unfailed (hquiet call hallowed) hserves advance
      exact ⟨hdown, hnone, hcalm.workers, hcalm.caller, hcalm.stopped⟩

end Calm

/-- As long as no unit fails and nobody cancels, a pool at a fresh latch stays calm. -/
theorem Plan.Run.calm {expected : Nat} (hfits : p.units + p.threads < 2 ^ 64)
    (hlimit : p.limit = none) (hquiet : ∀ call, around.calls call → Harmless call)
    (hrefusals : ∀ text, ¬ around.refusals text)
    (hrun : p.Run around (p.initial { expected := expected } shared) h s)
    (hunfailed : Unfailed h) (hcalls : CallsHarmless h) : Calm p s := by
  induction hrun with
  | start =>
      refine ⟨rfl, rfl, by simp [Plan.initial], ?_, by simp [Plan.initial]⟩
      by_cases hunits : p.units = 0 <;> simp [Plan.initial, hunits, Caller.GaveUp]
  | step label before _ hnext ih =>
      have hcalm := ih
        (fun unit outcome hmem => hunfailed unit outcome (List.mem_append_left _ hmem))
        (fun unit call hmem => hcalls unit call (List.mem_append_left _ hmem))
      exact hcalm.step hlimit (before.accounted hfits) (before.staffed hfits hrefusals) hfits
        before.serving hquiet
        (fun unit outcome hmem => hunfailed unit outcome (List.mem_append_right _ hmem))
        (fun unit call hmem => hcalls unit call (List.mem_append_right _ hmem)) (step_cases hnext)

/-- A pool that has returned and stayed calm has claimed every unit. -/
theorem Calm.all_claimed (hcalm : Calm p s) (hacc : Accounted p h s) (hstaffed : Staffed p s)
    (hthreads : 1 ≤ p.threads) {result : Except Failure Unit}
    (hreturned : s.caller = .returned result) : claimedUnits h = List.range p.units := by
  have hsize := hstaffed.full (by simp [hreturned])
  have hfirst : s.team[0] ∈ s.team := Array.getElem_mem (by omega)
  rw [hacc.stopped_of_gone (by rw [hreturned]; trivial) _ hfirst] at hfirst
  rw [hacc.claims, Nat.min_eq_right (hcalm.stopped hfirst)]

theorem called_of_mem {unit : Nat} {call : Latch.Call}
    (hcalled : Notice.called unit call ∈ p.workerNotices c worker) :
    ∃ state resume, worker = .running unit state ∧ p.job.next state = .call call resume := by
  cases worker with
  | running unit' state =>
      cases hmove : p.job.next state with
      | call call' resume =>
          rw [workerNotices_call hmove] at hcalled
          cases List.mem_singleton.mp hcalled
          exact ⟨state, resume, rfl, hmove⟩
      | _ => simp [Plan.workerNotices, hmove] at hcalled
  | claiming =>
      by_cases hleft : c.cursor.toNat < p.units <;> simp [Plan.workerNotices, hleft] at hcalled
  | calling unit' call' phase resume => cases phase <;> simp [Plan.workerNotices] at hcalled
  | failing unit' phase =>
      cases phase with
      | entering call' => cases call' <;> simp [Plan.workerNotices] at hcalled
      | _ => simp [Plan.workerNotices] at hcalled
  | _ => simp [Plan.workerNotices] at hcalled

/-- What the units of a run call is permitted if their programs call nothing else. -/
theorem Plan.Run.called_permitted {permitted : Latch.Call → Prop}
    (hfits : p.units + p.threads < 2 ^ 64) (hjob : p.job.CallsOnly p.units permitted)
    (hrun : p.Run around (p.initial latch shared) h s) {unit : Nat} {call : Latch.Call}
    (hcalled : Notice.called unit call ∈ h) : permitted call := by
  induction hrun with
  | start => cases hcalled
  | @step h s s' label before _ hnext ih =>
      rcases List.mem_append.mp hcalled with hbefore | hnow
      · exact ih hbefore
      · have hacc := before.accounted hfits
        cases step_cases hnext with
        | tick _ | refuse _ _ _ | outside _ | bystander _ _ _ | caller _ => cases hnow
        | @worker i choice worker worker' common here hstep =>
            rw [Plan.notices_worker here] at hnow
            obtain ⟨state, resume, rfl, hmove⟩ := called_of_mem hnow
            have hposition : (Worker.running unit state).position? = some (unit, .ready state) :=
              rfl
            have hclaimed := (hacc.of_busy here (busy_of_position hposition)).1
            have hvisits := (before.followed hfits).standing i _ here unit _ hposition
            exact hjob unit (hacc.lt_units hclaimed) _ call resume (hvisits.follow (.call hmove))

end Pool
end ApiSchema
