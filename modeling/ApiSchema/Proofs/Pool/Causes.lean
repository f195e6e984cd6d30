import ApiSchema.Proofs.Pool.Steps
import ApiSchema.Proofs.Pool.Team

/-!
What a run can fail with.

A failure that a latch keeps has been recorded by a worker for its unit, by a unit itself, by a
bystander, or by the caller for a worker that could not be started. So if none of them has any but
permitted failures to record, the latch keeps no other. No bound is put on the number of units here:
that the cursor may come round does not matter.
-/

namespace ApiSchema

variable {permitted : Failure → Prop}

namespace Latch

/-- A thread inside a call has at most a permitted failure to record. -/
def Phase.Permits (permitted : Failure → Prop) : Phase → Prop
  | .entering (.fail failure) | .recording failure => permitted failure
  | _ => True

/-- A latch keeps at most a permitted failure. -/
def Permits (permitted : Failure → Prop) (l : Latch) : Prop :=
  ∀ failure, l.failure = some failure → permitted failure

theorem Permits.record {l : Latch} {failure : Failure} (h : l.Permits permitted)
    (hfailure : permitted failure) : (l.record failure).Permits permitted := by
  unfold Latch.record
  split
  · intro failure' heq
    exact Option.some.inj heq ▸ hfailure
  · exact h

theorem Phase.Permits.locked {phase next : Phase} (h : phase.Permits permitted)
    (hlocked : phase.locked? = some next) : next.Permits permitted := by
  cases phase with
  | entering call =>
      cases call with
      | fail failure =>
          cases hlocked
          exact h
      | signal _ | arrived =>
          cases hlocked
          trivial
      | _ => cases hlocked
  | locking _ | waking _ _ =>
      cases hlocked
      trivial
  | _ => cases hlocked

/-- A step inside a call records nothing but what the thread had to record. -/
theorem Advance.permits {l l' : Latch} {me : Thread} {now : Nat} {choice : Choice}
    {phase phase' : Phase} (h : Advance l me now choice phase l' phase')
    (hlatch : l.Permits permitted) (hphase : phase.Permits permitted) :
    l'.Permits permitted ∧ phase'.Permits permitted := by
  cases h with
  | lock _ locked => exact ⟨hlatch, hphase.locked locked⟩
  | record failure => exact ⟨hlatch.record hphase, trivial⟩
  | countLast kind _ | count kind _ => cases kind <;> exact ⟨hlatch, trivial⟩
  | _ => exact ⟨hlatch, trivial⟩

end Latch

namespace Pool

variable {Local Shared : Type}

/-- The units of a job keep to states in which they have only permitted failures to record and to
end with. -/
structure Job.Confined (job : Job Local Shared) (inv : Local → Prop)
    (permitted : Failure → Prop) : Prop where
  start : ∀ unit, inv (job.start unit)
  access : ∀ state act, job.next state = .access act → inv state → ∀ shared, inv (act shared).1
  call : ∀ state call resume, job.next state = .call call resume → inv state →
    (Latch.Phase.entering call).Permits permitted ∧ ∀ reply, inv (resume reply)
  unblock : ∀ state state', job.next state = .untilCancelled state' → inv state → inv state'
  finish : ∀ state outcome, job.next state = .finish outcome → inv state →
    ∀ failure, outcome.failure? = some failure → permitted failure

/-- A worker has only permitted failures to record. -/
def Worker.Confined (inv : Local → Prop) (permitted : Failure → Prop) : Worker Local → Prop
  | .running _ state => inv state
  | .calling _ _ phase resume => phase.Permits permitted ∧ ∀ reply, inv (resume reply)
  | .failing _ phase => phase.Permits permitted
  | _ => True

def Caller.Confined (permitted : Failure → Prop) : Caller → Prop
  | .failing phase | .waiting phase => phase.Permits permitted
  | _ => True

/-- Nobody has any but permitted failures to record, and the latch keeps none. -/
structure State.Confined (inv : Local → Prop) (permitted : Failure → Prop)
    (s : State Local Shared) : Prop where
  latch : s.common.latch.Permits permitted
  team : ∀ (i : Nat) worker, s.team[i]? = some worker → worker.Confined inv permitted
  caller : s.caller.Confined permitted
  bystanders : ∀ (i : Nat) phase, s.bystanders[i]? = some phase → phase.Permits permitted

variable {p : Plan Local Shared} {inv : Local → Prop} {c c' : Common Shared} {me : Thread}
  {choice : Latch.Choice} {worker worker' : Worker Local} {s s' : State Local Shared}
  {label : Label} {around : Surroundings} {h : History Local}

theorem WorkerStep.confined (hjob : p.job.Confined inv permitted)
    (hstep : WorkerStep p c me choice worker c' worker') (hlatch : c.latch.Permits permitted)
    (hworker : worker.Confined inv permitted) :
    c'.latch.Permits permitted ∧ worker'.Confined inv permitted := by
  cases hstep with
  | halt _ | goOn _ | exhaust _ | succeed _ _ _ _ _ => exact ⟨hlatch, trivial⟩
  | claim _ => exact ⟨hlatch, hjob.start _⟩
  | fail _ state outcome failure next failed =>
      exact ⟨hlatch, hjob.finish state outcome next hworker failure failed⟩
  | access _ state act next => exact ⟨hlatch, hjob.access state act next hworker _⟩
  | call _ state call resume next => exact ⟨hlatch, hjob.call state call resume next hworker⟩
  | unblock _ state state' next _ => exact ⟨hlatch, hjob.unblock state state' next hworker⟩
  | callStep _ _ resume advance _ =>
      obtain ⟨hlatch', hphase⟩ := advance.permits hlatch hworker.1
      exact ⟨hlatch', hphase, hworker.2⟩
  | callReturn _ _ reply resume advance =>
      exact ⟨(advance.permits hlatch hworker.1).1, hworker.2 reply⟩
  | failStep _ advance _ => exact advance.permits hlatch hworker
  | failReturn _ reply advance => exact ⟨(advance.permits hlatch hworker).1, trivial⟩

theorem Caller.confined_afterWait (reply : Latch.Reply) :
    (Caller.afterWait reply).Confined permitted := by
  cases reply with
  | released result => cases result <;> trivial
  | _ => trivial

theorem CallerStep.confined (hstep : CallerStep p s choice s.caller s')
    (hconfined : s.Confined inv permitted) : s'.Confined inv permitted := by
  obtain ⟨hlatch, hteam, hold, hbystanders⟩ := hconfined
  have hcaller := hold
  generalize s.caller = caller at hstep hcaller
  cases hstep with
  | spawn _ =>
      refine ⟨hlatch, fun i worker hworker => ?_, hold, hbystanders⟩
      rw [Array.getElem?_push] at hworker
      split at hworker
      · cases hworker
        trivial
      · exact hteam i worker hworker
  | failStep advance _ | waitStep advance _ =>
      obtain ⟨hlatch', hphase⟩ := advance.permits hlatch hcaller
      exact ⟨hlatch', hteam, hphase, hbystanders⟩
  | failReturn reply advance =>
      exact ⟨(advance.permits hlatch hcaller).1, hteam, trivial, hbystanders⟩
  | waitReturn reply advance =>
      exact ⟨(advance.permits hlatch hcaller).1, hteam, Caller.confined_afterWait reply,
        hbystanders⟩
  | begin _ | cancel _ | join _ _ _ | finish _ _ _ | escape _ =>
      exact ⟨hlatch, hteam, trivial, hbystanders⟩

theorem Step.confined (hjob : p.job.Confined inv permitted)
    (hcalls : ∀ call, around.calls call → (Latch.Phase.entering call).Permits permitted)
    (hrefusals : ∀ text, around.refusals text → permitted (.spawn text))
    (hwithin : label.Within around) (hstep : Step p s label s')
    (hconfined : s.Confined inv permitted) : s'.Confined inv permitted := by
  obtain ⟨hlatch, hteam, hcaller, hbystanders⟩ := id hconfined
  cases hstep with
  | tick _ => exact ⟨hlatch, hteam, hcaller, hbystanders⟩
  | caller step => exact step.confined hconfined
  | refuse text _ _ => exact ⟨hlatch, hteam, hrefusals text hwithin, hbystanders⟩
  | worker index here step =>
      obtain ⟨hlatch', hworker⟩ := step.confined hjob hlatch (hteam index _ here)
      refine ⟨hlatch', fun i other hother => ?_, hcaller, hbystanders⟩
      rcases worker_cases hother with ⟨_, rfl⟩ | ⟨_, hother⟩
      · exact hworker
      · exact hteam i other hother
  | outside call =>
      refine ⟨hlatch, hteam, hcaller, fun i phase hphase => ?_⟩
      rw [Array.getElem?_push] at hphase
      split at hphase
      · cases hphase
        exact hcalls call hwithin
      · exact hbystanders i phase hphase
  | @bystander index choice phase phase' l here advance =>
      obtain ⟨hlatch', hphase⟩ := advance.permits hlatch (hbystanders index phase here)
      refine ⟨hlatch', hteam, hcaller, fun i other hother => ?_⟩
      rw [Array.getElem?_setIfInBounds] at hother
      split at hother
      · split at hother
        · cases hother
          exact hphase
        · cases hother
      · exact hbystanders i other hother

/-- In every interleaving, the latch keeps none but permitted failures. -/
theorem Plan.Run.confined {latch : Latch} {shared : Shared}
    (hjob : p.job.Confined inv permitted)
    (hcalls : ∀ call, around.calls call → (Latch.Phase.entering call).Permits permitted)
    (hrefusals : ∀ text, around.refusals text → permitted (.spawn text))
    (hlatch : latch.Permits permitted) (hrun : p.Run around (p.initial latch shared) h s) :
    s.Confined inv permitted := by
  induction hrun with
  | start =>
      refine ⟨hlatch, by simp [Plan.initial], ?_, by simp [Plan.initial]⟩
      by_cases hunits : p.units = 0 <;> simp [Plan.initial, hunits, Caller.Confined]
  | step label _ within next ih =>
      exact (step_cases next).confined hjob hcalls hrefusals within ih

end Pool
end ApiSchema
