import ApiSchema.Pool.Schedule
import ApiSchema.Proofs.Pool.Reasons

/-!
A pool never gets stuck before its caller has returned or panicked.

The units make prompt calls only and nobody else calls the latch. Then a thread that waits for the
lock waits for one that can go on. So only a sleeping caller could be stuck, and it would have to
sleep at a latch that is open: if workers are missing or have stopped early, the latch keeps a
failure, and otherwise every unit has run.
-/

namespace ApiSchema
namespace Pool

variable {Local Shared : Type} {p : Plan Local Shared} {c c' : Common Shared} {me : Thread}
  {choice : Latch.Choice} {worker worker' : Worker Local} {h : History Local}
  {s s' : State Local Shared} {label : Label} {around : Surroundings}

/-- A worker that no call of its own keeps from going on: it has no call that has returned. -/
def Worker.Unfinished (worker : Worker Local) : Prop :=
  ∀ phase, worker.phase? = some phase → ∀ reply, phase ≠ .finished reply

def Caller.Unfinished (caller : Caller) : Prop :=
  ∀ phase, caller.phase? = some phase → ∀ reply, phase ≠ .finished reply

theorem Worker.unfinished_of_phase (hphase : worker.phase? = none) : worker.Unfinished := by
  intro phase hsome
  rw [hphase] at hsome
  cases hsome

theorem WorkerStep.unfinished (hstep : WorkerStep p c me choice worker c' worker') :
    worker'.Unfinished := by
  cases hstep with
  | call unit state call resume _ | fail unit state outcome failure _ _ =>
      intro phase hphase
      cases hphase
      simp
  | callStep unit call resume _ unfinished | failStep unit _ unfinished =>
      intro phase hphase
      cases hphase
      exact unfinished
  | _ => exact Worker.unfinished_of_phase rfl

theorem Caller.unfinished_of_phase {caller : Caller} (hphase : caller.phase? = none) :
    caller.Unfinished := by
  intro phase hsome
  rw [hphase] at hsome
  cases hsome

theorem CallerStep.unfinished (hold : s.caller.Unfinished)
    (hstep : CallerStep p s choice s.caller s') : s'.caller.Unfinished := by
  generalize hcaller : s.caller = caller at hstep hold
  cases hstep with
  | spawn _ => exact Caller.unfinished_of_phase (by rw [hcaller]; rfl)
  | begin _ | failReturn _ _ =>
      intro phase hphase
      cases hphase
      exact nofun
  | failStep _ unfinished | waitStep _ unfinished =>
      intro phase hphase
      cases hphase
      exact unfinished
  | waitReturn reply _ => exact Caller.unfinished_of_phase (phase?_afterWait reply)
  | cancel _ | join _ _ _ | finish _ _ _ | escape _ => exact Caller.unfinished_of_phase rfl

/-- Calls that have returned are over. -/
theorem Plan.Run.unfinished {latch : Latch} {shared : Shared}
    (hrun : p.Run around (p.initial latch shared) h s) :
    (∀ worker ∈ s.team, worker.Unfinished) ∧ s.caller.Unfinished := by
  induction hrun with
  | start =>
      refine ⟨by simp [Plan.initial], ?_⟩
      by_cases hunits : p.units = 0 <;>
        simp [Plan.initial, hunits, Caller.Unfinished, Caller.phase?]
  | @step h s s' label before within next ih =>
      obtain ⟨hworkers, hcaller⟩ := ih
      cases step_cases next with
      | tick _ | outside _ | bystander _ _ _ => exact ⟨hworkers, hcaller⟩
      | refuse text _ _ =>
          refine ⟨hworkers, fun phase hphase reply hreply => ?_⟩
          cases hphase
          cases hreply
      | worker index here hstep =>
          refine ⟨fun worker hworker => ?_, hcaller⟩
          rcases Array.mem_or_eq_of_mem_setIfInBounds hworker with hold | rfl
          · exact hworkers worker hold
          · exact hstep.unfinished
      | caller hstep =>
          refine ⟨fun worker hworker => ?_, hstep.unfinished hcaller⟩
          generalize s.caller = caller at hstep
          cases hstep with
          | spawn _ =>
              rcases Array.mem_push.mp hworker with hold | rfl
              · exact hworkers worker hold
              · exact Worker.unfinished_of_phase rfl
          | _ => exact hworkers worker hworker

/-- Whether a thread can take the step that a label stands for. -/
def Plan.CanStep (p : Plan Local Shared) (s : State Local Shared) (label : Label) : Prop :=
  ∃ s', p.step s label = some s'

theorem call_ready {phase : Latch.Phase} (hready : phase.Ready)
    (hlock : phase.holds = true ∨ c.latch.holder = none) (me : Thread) :
    ∃ c' phase', c.call me phase .proceed = some (c', phase') := by
  obtain ⟨l', phase', hadvance⟩ := Latch.advance_ready hready hlock me c.clock
  exact ⟨{ c with latch := l' }, phase', by simp [Common.call, hadvance]⟩

/-- A worker whose unit is not blocked goes on, as soon as the lock is free if it needs that. -/
theorem worker_ready (hne : worker ≠ .stopped)
    (hmoves : ∀ unit state, worker = .running unit state →
      ∀ state', p.job.next state ≠ .untilCancelled state')
    (hready : ∀ phase, worker.phase? = some phase →
      phase.Ready ∧ (phase.holds = true ∨ c.latch.holder = none)) (me : Thread) :
    ∃ c' worker', p.stepWorker c me worker .proceed = some (c', worker') := by
  cases worker with
  | checking | claiming => exact ⟨_, _, rfl⟩
  | running unit state =>
      cases hnext : p.job.next state with
      | untilCancelled state' => exact absurd hnext (hmoves unit state rfl state')
      | _ => simp [Plan.stepWorker, hnext]
  | calling unit call phase resume =>
      obtain ⟨hphase, hlock⟩ := hready phase rfl
      obtain ⟨c', phase', hcall⟩ := call_ready hphase hlock me
      simp only [Plan.stepWorker, hcall]
      cases phase' <;> exact ⟨_, _, rfl⟩
  | failing unit phase =>
      obtain ⟨hphase, hlock⟩ := hready phase rfl
      obtain ⟨c', phase', hcall⟩ := call_ready hphase hlock me
      simp only [Plan.stepWorker, hcall]
      cases phase' <;> exact ⟨_, _, rfl⟩
  | stopped => exact absurd rfl hne

theorem Serves.ready {call : Latch.Call} {phase : Latch.Phase} (hserves : phase.Serves call)
    (hcall : ∀ limit, call ≠ .wait limit) (hunfinished : ∀ reply, phase ≠ .finished reply) :
    phase.Ready := by
  cases phase with
  | sleeping waiting =>
      cases call with
      | wait limit => exact absurd rfl (hcall limit)
      | _ => exact hserves.elim
  | finished reply => exact absurd rfl (hunfinished reply)
  | _ => trivial

theorem worker_mem_candidates {i : Nat} (here : s.team[i]? = some worker) :
    Label.worker i .proceed ∈ s.candidates := by
  have hlt := (Array.getElem?_eq_some_iff.mp here).1
  simp [State.candidates, hlt]

theorem caller_mem_candidates (s : State Local Shared) :
    Label.caller .proceed ∈ s.candidates := by
  simp [State.candidates]

/-- A worker that has not stopped can go on if it has the lock or the lock is free. -/
theorem worker_canStep (hacc : Accounted p h s) (hfollowed : Followed p h s)
    (hjob : p.job.Unblocked p.units) {i : Nat} (here : s.team[i]? = some worker)
    (hserves : worker.Serves) (hunfinished : worker.Unfinished) (hne : worker ≠ .stopped)
    (hlock : ∀ phase, worker.phase? = some phase →
      phase.holds = true ∨ s.common.latch.holder = none) :
    p.CanStep s (.worker i .proceed) := by
  have hmoves : ∀ unit state, worker = .running unit state →
      ∀ state', p.job.next state ≠ .untilCancelled state' := by
    rintro unit state rfl
    have hposition : (Worker.running unit state).position? = some (unit, .ready state) := rfl
    have hclaimed := (hacc.of_busy here (busy_of_position hposition)).1
    exact hjob.moves unit (hacc.lt_units hclaimed) _ state
      (hfollowed.standing i _ here unit _ hposition)
  have hready : ∀ phase, worker.phase? = some phase →
      phase.Ready ∧ (phase.holds = true ∨ s.common.latch.holder = none) := by
    intro phase hphase
    refine ⟨?_, hlock phase hphase⟩
    cases worker with
    | calling unit call phase' resume =>
        cases hphase
        refine Serves.ready hserves ?_ (hunfinished phase rfl)
        rintro limit rfl
        exact hfollowed.permitted hacc hjob.calls here
    | failing unit phase' =>
        cases hphase
        obtain ⟨failure, hserves⟩ := hserves
        exact Serves.ready hserves nofun (hunfinished phase rfl)
    | _ => cases hphase
  obtain ⟨c', worker', hstep⟩ := worker_ready hne hmoves hready (workerThread i)
  exact ⟨_, by simp only [Plan.step, here, Option.bind_eq_bind, Option.bind_some, hstep]; rfl⟩

/-- A caller inside a call goes on if it has the lock or the lock is free. -/
theorem calling_canStep {phase : Latch.Phase} (hcaller : s.caller.phase? = some phase)
    (hready : phase.Ready) (hlock : phase.holds = true ∨ s.common.latch.holder = none) :
    p.CanStep s (.caller .proceed) := by
  obtain ⟨c', phase', hcall⟩ := call_ready hready hlock callerThread
  cases heq : s.caller with
  | failing _ | waiting _ =>
      rw [heq] at hcaller
      cases hcaller
      simp only [Plan.CanStep, Plan.step, heq, Plan.stepCaller, hcall]
      cases phase' <;> exact ⟨_, rfl⟩
  | _ =>
      rw [heq] at hcaller
      cases hcaller

/-- Once all workers have stopped and the lock is free, only a sleeping caller cannot go on. -/
theorem caller_canStep (hstopped : ∀ worker ∈ s.team, worker = .stopped)
    (hfree : s.common.latch.holder = none) (hunfinished : s.caller.Unfinished)
    (hserves : s.caller.Serves p.limit) (hstays : ¬ s.caller.Gone)
    (hawake : ∀ waiting, s.caller = .waiting (.sleeping waiting) →
      callerThread ∉ s.common.latch.parked) : p.CanStep s (.caller .proceed) := by
  cases hcaller : s.caller with
  | starting =>
      by_cases hmissing : s.team.size < p.threads <;>
        simp [Plan.CanStep, Plan.step, hcaller, Plan.stepCaller, hmissing]
  | failing phase =>
      rw [hcaller] at hserves hunfinished
      obtain ⟨text, hserves⟩ := hserves
      have hready := Serves.ready hserves (by rintro limit ⟨⟩) (hunfinished phase rfl)
      exact calling_canStep (by rw [hcaller]; rfl) hready (Or.inr hfree)
  | waiting phase =>
      have hphase : s.caller.phase? = some phase := by rw [hcaller]; rfl
      cases phase with
      | sleeping waiting =>
          simp [Plan.CanStep, Plan.step, hcaller, Plan.stepCaller, Common.call, Latch.advance,
            Latch.wake, hawake waiting hcaller]
      | finished reply => exact absurd rfl (hunfinished _ hphase reply)
      | _ => exact calling_canStep hphase trivial (Or.inr hfree)
  | cancelling failure => simp [Plan.CanStep, Plan.step, hcaller, Plan.stepCaller]
  | joining result next =>
      cases hnext : s.team[next]? with
      | none => simp [Plan.CanStep, Plan.step, hcaller, Plan.stepCaller, hnext]
      | some worker =>
          have hover := hstopped worker (Array.mem_of_getElem? hnext)
          rw [hover] at hnext
          simp [Plan.CanStep, Plan.step, hcaller, Plan.stepCaller, hnext]
  | unwinding =>
      have hall : s.team.all Worker.hasStopped = true := by
        rw [Array.all_eq_true']
        intro worker hworker
        rw [hstopped worker hworker]
        rfl
      exact ⟨{ s with caller := .panicked },
        by simp only [Plan.step, hcaller, Plan.stepCaller, hall, if_true]⟩
  | returned _ | panicked =>
      rw [hcaller] at hstays
      exact absurd trivial hstays

/-- The thread that has the lock can go on. -/
theorem holder_canStep (hacc : Accounted p h s) (hfollowed : Followed p h s)
    (hserving : Serving p refusing s) (horder : Latch.Orderly s.common.latch (p.table s))
    (hjob : p.job.Unblocked p.units) (hunfinished : ∀ worker ∈ s.team, worker.Unfinished)
    {t : Thread} (hholder : s.common.latch.holder = some t) :
    ∃ label ∈ s.candidates, p.CanStep s label := by
  have hholds := (horder.held t).1 hholder
  rw [Latch.Table.holds, Option.any_eq_true] at hholds
  obtain ⟨phase, hphase, hholds⟩ := hholds
  have hready : phase.Ready := by cases phase <;> trivial
  rcases thread_cases p t with rfl | ⟨i, hi, rfl⟩ | ⟨i, rfl⟩
  · rw [table_caller] at hphase
    exact ⟨_, caller_mem_candidates s, calling_canStep hphase hready (Or.inl hholds)⟩
  · rw [table_worker hi, Option.bind_eq_some_iff] at hphase
    obtain ⟨worker, here, hphase⟩ := hphase
    have hmem := Array.mem_of_getElem? here
    refine ⟨_, worker_mem_candidates here, worker_canStep hacc hfollowed hjob here
      (hserving.workers worker hmem) (hunfinished worker hmem) ?_ ?_⟩
    · rintro rfl
      cases hphase
    · intro phase' hphase'
      rw [hphase] at hphase'
      cases hphase'
      exact Or.inl hholds
  · rw [table_bystander, hserving.bystanders_empty] at hphase
    cases hphase

/-- A pool can go on until its caller has returned or panicked, if the latch is open once every unit
has run and none has failed. -/
theorem Plan.Run.progress {expected : Nat} {shared : Shared}
    (hfits : p.units + p.threads < 2 ^ 64) (hthreads : 1 ≤ p.threads)
    (hjob : p.job.Unblocked p.units)
    (hrun : p.Run refusing (p.initial { expected := expected } shared) h s)
    (hdone : (∀ worker ∈ s.team, worker = .stopped) → claimedUnits h = List.range p.units →
      s.common.latch.failure = none → s.common.latch.isComplete = true) :
    s.caller.Gone ∨ ∃ label ∈ s.candidates, p.CanStep s label := by
  have hacc := hrun.accounted hfits
  have hfollowed := hrun.followed hfits
  have hserving := hrun.serving
  have horder := hrun.orderly hfits
  obtain ⟨hworkers, hcaller⟩ := hrun.unfinished
  cases hholder : s.common.latch.holder with
  | some t =>
      exact Or.inr (holder_canStep hacc hfollowed hserving horder hjob hworkers hholder)
  | none =>
      by_cases hstopped : ∀ worker ∈ s.team, worker = .stopped
      · by_cases hgone : s.caller.Gone
        · exact Or.inl hgone
        · refine Or.inr ⟨_, caller_mem_candidates s, caller_canStep hstopped hholder hcaller
            hserving.caller hgone fun waiting hsleeping hparked => ?_⟩
          have hshut := horder.shut_of_parked hholder (List.ne_nil_of_mem hparked)
          simp only [Latch.isOpen, Bool.or_eq_false_iff, Option.isSome_eq_false_iff,
            Option.isNone_iff_eq_none] at hshut
          have hreasoned := hrun.reasoned hfits rfl hjob.calls
          have hsize : s.team.size = p.threads := by
            rcases hreasoned.missing (by rw [hsleeping]; exact id) with hsome | hsize
            · rw [hshut.1] at hsome
              cases hsome
            · exact hsize
          have hmem : s.team[0] ∈ s.team := Array.getElem_mem (by omega)
          have hfirst := hstopped _ hmem
          rw [hfirst] at hmem
          have hclaimed := hreasoned.all_claimed hacc hmem hshut.1 (by rw [hsleeping]; exact id)
          rw [hdone hstopped hclaimed hshut.1] at hshut
          cases hshut.2
      · simp only [not_forall] at hstopped
        obtain ⟨worker, hmem, hne⟩ := hstopped
        obtain ⟨i, hi, rfl⟩ := Array.mem_iff_getElem.mp hmem
        have here := Array.getElem?_eq_getElem hi
        exact Or.inr ⟨_, worker_mem_candidates here, worker_canStep hacc hfollowed hjob here
          (hserving.workers _ hmem) (hworkers _ hmem) hne fun _ _ => Or.inr hholder⟩

/-- Without a recorded failure no unit has failed, once all workers have stopped. -/
theorem Reported.unfailed (hreported : Reported h s) (hkept : Kept h s)
    (hstopped : ∀ worker ∈ s.team, worker = .stopped) (hfailure : s.common.latch.failure = none)
    {unit : Nat} {outcome : Outcome} (hended : Notice.ended unit outcome ∈ h) :
    outcome.failure? = none := by
  cases hfailed : outcome.failure? with
  | none => rfl
  | some failure =>
      have hmem := hreported.of_stopped hstopped ⟨outcome, hended, hfailed⟩
      obtain ⟨i, unit', failure', hworker⟩ := hkept hfailure (List.ne_nil_of_mem hmem)
      cases hstopped _ (Array.mem_of_getElem? hworker)

end Pool
end ApiSchema
