import ApiSchema.Pool.Basic
import ApiSchema.Proofs.Latch.Advance

/-!
The steps of a pool, written out, and the histories of its runs.

`WorkerStep` and `CallerStep` have one constructor for each thing that a worker or the caller can
do. `Step` puts them together with the steps of bystanders, of the clock and of a system that
refuses to start a worker, and `step_cases` says that `Plan.step` does nothing else.

A run of a pool leaves a history: the list of what its units did, in the order in which it
happened.
-/

namespace ApiSchema
namespace Pool

variable {Local Shared : Type}

/-- Something that a unit does and a history remembers. -/
inductive Notice (Local : Type) where
  /-- A worker claims the unit. -/
  | claimed (unit : Nat)
  /-- The unit, in this state of its program, reads and changes the shared memory. -/
  | accessed (unit : Nat) (state : Local)
  /-- The unit begins a call on the latch. -/
  | called (unit : Nat) (call : Latch.Call)
  /-- The latch counts an arrival that the unit reports. -/
  | arrived (unit : Nat) (kind : Signal)
  /-- The unit ends. -/
  | ended (unit : Nat) (outcome : Outcome)
  /-- The worker of the unit has taken the lock to record how the unit failed. -/
  | failed (unit : Nat) (failure : Failure)

/-- What happened so far, the earliest first. -/
abbrev History (Local : Type) := List (Notice Local)

/-- What the next step of a worker adds to the history. -/
def Plan.workerNotices (p : Plan Local Shared) (c : Common Shared) :
    Worker Local → History Local
  | .claiming => if c.cursor.toNat < p.units then [.claimed c.cursor.toNat] else []
  | .running unit state =>
    match p.job.next state with
    | .finish outcome => [.ended unit outcome]
    | .access _ => [.accessed unit state]
    | .call call _ => [.called unit call]
    | .untilCancelled _ => []
  | .calling unit _ (.counting kind) _ => [.arrived unit kind]
  | .failing unit (.entering (.fail failure)) => [.failed unit failure]
  | _ => []

def Plan.notices (p : Plan Local Shared) (s : State Local Shared) : Label → History Local
  | .worker index _ =>
    match s.team[index]? with
    | some worker => p.workerNotices s.common worker
    | none => []
  | _ => []

theorem Plan.notices_worker {p : Plan Local Shared} {s : State Local Shared} {index : Nat}
    {worker : Worker Local} (h : s.team[index]? = some worker) (choice : Latch.Choice) :
    p.notices s (.worker index choice) = p.workerNotices s.common worker := by
  simp only [Plan.notices, h]

section WorkerNotices

variable {p : Plan Local Shared} {c : Common Shared} {state : Local}

theorem workerNotices_claim (hleft : c.cursor.toNat < p.units) :
    p.workerNotices c .claiming = [.claimed c.cursor.toNat] :=
  if_pos hleft

theorem workerNotices_exhaust (hnone : p.units ≤ c.cursor.toNat) :
    p.workerNotices c .claiming = [] :=
  if_neg (Nat.not_lt.mpr hnone)

theorem workerNotices_finish {outcome : Outcome} (hnext : p.job.next state = .finish outcome)
    (c : Common Shared) (unit : Nat) :
    p.workerNotices c (.running unit state) = [.ended unit outcome] := by
  simp only [Plan.workerNotices, hnext]

theorem workerNotices_access {act : Shared → Local × Shared}
    (hnext : p.job.next state = .access act) (c : Common Shared) (unit : Nat) :
    p.workerNotices c (.running unit state) = [.accessed unit state] := by
  simp only [Plan.workerNotices, hnext]

theorem workerNotices_call {call : Latch.Call} {resume : Latch.Reply → Local}
    (hnext : p.job.next state = .call call resume) (c : Common Shared) (unit : Nat) :
    p.workerNotices c (.running unit state) = [.called unit call] := by
  simp only [Plan.workerNotices, hnext]

theorem workerNotices_unblock {state' : Local} (hnext : p.job.next state = .untilCancelled state')
    (c : Common Shared) (unit : Nat) : p.workerNotices c (.running unit state) = [] := by
  simp only [Plan.workerNotices, hnext]

end WorkerNotices

/-- What can happen around a pool: the calls that bystanders may begin, and the words in which the
system may refuse to start a worker. -/
structure Surroundings where
  calls : Latch.Call → Prop
  refusals : String → Prop

/-- Nobody else calls the latch, and every worker can be started. -/
def nobody : Surroundings :=
  ⟨fun _ => False, fun _ => False⟩

/-- Nobody else calls the latch, but the system may refuse to start workers. -/
def refusing : Surroundings :=
  ⟨fun _ => False, fun _ => True⟩

def Label.Within (around : Surroundings) : Label → Prop
  | .outside call => around.calls call
  | .refuse text => around.refusals text
  | _ => True

/-- The runs of a pool in given surroundings, with their histories. -/
inductive Plan.Run (p : Plan Local Shared) (around : Surroundings)
    (start : State Local Shared) : History Local → State Local Shared → Prop
  | start : Plan.Run p around start [] start
  | step {h : History Local} {s s' : State Local Shared} (label : Label)
      (before : Plan.Run p around start h s) (within : label.Within around)
      (next : p.step s label = some s') : Plan.Run p around start (h ++ p.notices s label) s'

/-- What happens in some surroundings can happen in wider ones. -/
theorem Plan.Run.mono {p : Plan Local Shared} {around around' : Surroundings}
    {start s : State Local Shared} {h : History Local}
    (hcalls : ∀ call, around.calls call → around'.calls call)
    (hrefusals : ∀ text, around.refusals text → around'.refusals text)
    (hrun : p.Run around start h s) : p.Run around' start h s := by
  induction hrun with
  | start => exact Plan.Run.start
  | step label _ hwithin hnext ih =>
      refine ih.step label ?_ hnext
      cases label with
      | outside call => exact hcalls call hwithin
      | refuse text => exact hrefusals text hwithin
      | _ => trivial

/-- One step of a worker, as thread `me`. -/
inductive WorkerStep (p : Plan Local Shared) (c : Common Shared) (me : Thread) :
    Latch.Choice → Worker Local → Common Shared → Worker Local → Prop
  | halt (cancelled : c.latch.cancelled = true) :
      WorkerStep p c me .proceed .checking c .stopped
  | goOn (uncancelled : c.latch.cancelled = false) :
      WorkerStep p c me .proceed .checking c .claiming
  | claim (some_left : c.cursor.toNat < p.units) :
      WorkerStep p c me .proceed .claiming { c with cursor := c.cursor + 1 }
        (.running c.cursor.toNat (p.job.start c.cursor.toNat))
  | exhaust (none_left : p.units ≤ c.cursor.toNat) :
      WorkerStep p c me .proceed .claiming { c with cursor := c.cursor + 1 } .stopped
  | succeed (unit : Nat) (state : Local) (outcome : Outcome)
      (next : p.job.next state = .finish outcome) (success : outcome.failure? = none) :
      WorkerStep p c me .proceed (.running unit state) c .checking
  | fail (unit : Nat) (state : Local) (outcome : Outcome) (failure : Failure)
      (next : p.job.next state = .finish outcome) (failed : outcome.failure? = some failure) :
      WorkerStep p c me .proceed (.running unit state) c (.failing unit (.entering (.fail failure)))
  | access (unit : Nat) (state : Local) (act : Shared → Local × Shared)
      (next : p.job.next state = .access act) :
      WorkerStep p c me .proceed (.running unit state) { c with shared := (act c.shared).2 }
        (.running unit (act c.shared).1)
  | call (unit : Nat) (state : Local) (call : Latch.Call) (resume : Latch.Reply → Local)
      (next : p.job.next state = .call call resume) :
      WorkerStep p c me .proceed (.running unit state) c
        (.calling unit call (.entering call) resume)
  | unblock (unit : Nat) (state state' : Local)
      (next : p.job.next state = .untilCancelled state') (cancelled : c.latch.cancelled = true) :
      WorkerStep p c me .proceed (.running unit state) c (.running unit state')
  | callStep (unit : Nat) (call : Latch.Call) {choice : Latch.Choice}
      {phase phase' : Latch.Phase} {l : Latch} (resume : Latch.Reply → Local)
      (advance : Latch.Advance c.latch me c.clock choice phase l phase')
      (unfinished : ∀ reply, phase' ≠ .finished reply) :
      WorkerStep p c me choice (.calling unit call phase resume) { c with latch := l }
        (.calling unit call phase' resume)
  | callReturn (unit : Nat) (call : Latch.Call) {choice : Latch.Choice} {phase : Latch.Phase}
      {l : Latch} (reply : Latch.Reply) (resume : Latch.Reply → Local)
      (advance : Latch.Advance c.latch me c.clock choice phase l (.finished reply)) :
      WorkerStep p c me choice (.calling unit call phase resume) { c with latch := l }
        (.running unit (resume reply))
  | failStep (unit : Nat) {choice : Latch.Choice} {phase phase' : Latch.Phase} {l : Latch}
      (advance : Latch.Advance c.latch me c.clock choice phase l phase')
      (unfinished : ∀ reply, phase' ≠ .finished reply) :
      WorkerStep p c me choice (.failing unit phase) { c with latch := l } (.failing unit phase')
  | failReturn (unit : Nat) {choice : Latch.Choice} {phase : Latch.Phase} {l : Latch}
      (reply : Latch.Reply)
      (advance : Latch.Advance c.latch me c.clock choice phase l (.finished reply)) :
      WorkerStep p c me choice (.failing unit phase) { c with latch := l } .stopped

/-- One step of the caller. -/
inductive CallerStep (p : Plan Local Shared) (s : State Local Shared) :
    Latch.Choice → Caller → State Local Shared → Prop
  | spawn (missing : s.team.size < p.threads) :
      CallerStep p s .proceed .starting { s with team := s.team.push .checking }
  | begin (enough : p.threads ≤ s.team.size) :
      CallerStep p s .proceed .starting
        { s with caller := .waiting (.entering (.wait p.limit)) }
  | failStep {choice : Latch.Choice} {phase phase' : Latch.Phase} {l : Latch}
      (advance : Latch.Advance s.common.latch callerThread s.common.clock choice phase l phase')
      (unfinished : ∀ reply, phase' ≠ .finished reply) :
      CallerStep p s choice (.failing phase)
        { s with common := { s.common with latch := l }, caller := .failing phase' }
  | failReturn {choice : Latch.Choice} {phase : Latch.Phase} {l : Latch} (reply : Latch.Reply)
      (advance : Latch.Advance s.common.latch callerThread s.common.clock choice phase l
        (.finished reply)) :
      CallerStep p s choice (.failing phase)
        { s with
          common := { s.common with latch := l }
          caller := .waiting (.entering (.wait p.limit)) }
  | waitStep {choice : Latch.Choice} {phase phase' : Latch.Phase} {l : Latch}
      (advance : Latch.Advance s.common.latch callerThread s.common.clock choice phase l phase')
      (unfinished : ∀ reply, phase' ≠ .finished reply) :
      CallerStep p s choice (.waiting phase)
        { s with common := { s.common with latch := l }, caller := .waiting phase' }
  | waitReturn {choice : Latch.Choice} {phase : Latch.Phase} {l : Latch} (reply : Latch.Reply)
      (advance : Latch.Advance s.common.latch callerThread s.common.clock choice phase l
        (.finished reply)) :
      CallerStep p s choice (.waiting phase)
        { s with common := { s.common with latch := l }, caller := .afterWait reply }
  | cancel (failure : Failure) :
      CallerStep p s .proceed (.cancelling failure)
        { s with
          common := { s.common with latch := s.common.latch.cancel }
          caller := .joining (.error failure) 0 }
  | join (result : Except Failure Unit) (next : Nat)
      (stopped : s.team[next]? = some .stopped) :
      CallerStep p s .proceed (.joining result next)
        { s with caller := .joining result (next + 1) }
  | finish (result : Except Failure Unit) (next : Nat) (joined : s.team[next]? = none) :
      CallerStep p s .proceed (.joining result next) { s with caller := .returned result }
  | escape (stopped : ∀ worker ∈ s.team, worker = .stopped) :
      CallerStep p s .proceed .unwinding { s with caller := .panicked }

/-- One event of a pool. -/
inductive Step (p : Plan Local Shared) (s : State Local Shared) :
    Label → State Local Shared → Prop
  | tick (nanoseconds : Nat) :
      Step p s (.tick nanoseconds)
        { s with common := { s.common with clock := s.common.clock + nanoseconds } }
  | caller {choice : Latch.Choice} {s' : State Local Shared}
      (step : CallerStep p s choice s.caller s') : Step p s (.caller choice) s'
  | refuse (text : String) (starting : s.caller = .starting) (missing : s.team.size < p.threads) :
      Step p s (.refuse text) { s with caller := .failing (.entering (.fail (.spawn text))) }
  | worker (index : Nat) {choice : Latch.Choice} {worker worker' : Worker Local}
      {common : Common Shared} (here : s.team[index]? = some worker)
      (step : WorkerStep p s.common (workerThread index) choice worker common worker') :
      Step p s (.worker index choice)
        { s with common := common, team := s.team.setIfInBounds index worker' }
  | outside (call : Latch.Call) :
      Step p s (.outside call) { s with bystanders := s.bystanders.push (.entering call) }
  | bystander (index : Nat) {choice : Latch.Choice} {phase phase' : Latch.Phase} {l : Latch}
      (here : s.bystanders[index]? = some phase)
      (advance : Latch.Advance s.common.latch (p.bystanderThread index) s.common.clock choice
        phase l phase') :
      Step p s (.bystander index choice)
        { s with
          common := { s.common with latch := l }
          bystanders := s.bystanders.setIfInBounds index phase' }

theorem Common.call_eq_some {c c' : Common Shared} {me : Thread} {phase phase' : Latch.Phase}
    {choice : Latch.Choice} (h : c.call me phase choice = some (c', phase')) :
    ∃ l, Latch.Advance c.latch me c.clock choice phase l phase' ∧ c' = { c with latch := l } := by
  simp only [Common.call, Option.map_eq_some_iff] at h
  obtain ⟨⟨l, phase''⟩, hadvance, heq⟩ := h
  obtain ⟨rfl, rfl⟩ := Prod.mk.inj heq
  exact ⟨l, Latch.advance_cases hadvance, rfl⟩

variable {p : Plan Local Shared}

theorem stepWorker_running {c c' : Common Shared} {me : Thread} {choice : Latch.Choice}
    {unit : Nat} {state : Local} {worker : Worker Local}
    (h : p.stepWorker c me (.running unit state) choice = some (c', worker)) :
    WorkerStep p c me choice (.running unit state) c' worker := by
  cases choice with
  | proceed =>
      simp only [Plan.stepWorker] at h
      cases hnext : p.job.next state with
      | finish outcome =>
          simp only [hnext, Option.some.injEq, Prod.mk.injEq] at h
          obtain ⟨rfl, rfl⟩ := h
          cases hfailure : outcome.failure? with
          | none =>
              simpa [Worker.afterUnit, hfailure] using
                WorkerStep.succeed unit state outcome hnext hfailure
          | some failure =>
              simpa [Worker.afterUnit, hfailure] using
                WorkerStep.fail unit state outcome failure hnext hfailure
      | access act =>
          simp only [hnext, Option.some.injEq, Prod.mk.injEq] at h
          obtain ⟨rfl, rfl⟩ := h
          exact WorkerStep.access unit state act hnext
      | call call resume =>
          simp only [hnext, Option.some.injEq, Prod.mk.injEq] at h
          obtain ⟨rfl, rfl⟩ := h
          exact WorkerStep.call unit state call resume hnext
      | untilCancelled state' =>
          simp only [hnext] at h
          split at h
          next hcancelled =>
            obtain ⟨rfl, rfl⟩ := Prod.mk.inj (Option.some.inj h)
            exact WorkerStep.unblock unit state state' hnext hcancelled
          · cases h
  | spurious | expire => cases h

theorem stepWorker_cases {c c' : Common Shared} {me : Thread} {choice : Latch.Choice}
    {worker worker' : Worker Local}
    (h : p.stepWorker c me worker choice = some (c', worker')) :
    WorkerStep p c me choice worker c' worker' := by
  cases worker with
  | checking =>
      cases choice <;> cases h
      cases hcancelled : c.latch.cancelled with
      | true => exact WorkerStep.halt hcancelled
      | false => exact WorkerStep.goOn hcancelled
  | claiming =>
      cases choice <;> cases h
      by_cases hleft : c.cursor.toNat < p.units
      · rw [if_pos hleft]
        exact WorkerStep.claim hleft
      · rw [if_neg hleft]
        exact WorkerStep.exhaust (Nat.le_of_not_lt hleft)
  | running unit state => exact stepWorker_running h
  | calling unit call phase resume =>
      simp only [Plan.stepWorker, bind, Option.bind_eq_some_iff] at h
      obtain ⟨⟨c'', phase'⟩, hcall, h⟩ := h
      obtain ⟨l, hadvance, rfl⟩ := Common.call_eq_some hcall
      cases phase' with
      | finished reply =>
          cases h
          exact WorkerStep.callReturn unit call reply resume hadvance
      | _ =>
          cases h
          exact WorkerStep.callStep unit call resume hadvance nofun
  | failing unit phase =>
      simp only [Plan.stepWorker, bind, Option.bind_eq_some_iff] at h
      obtain ⟨⟨c'', phase'⟩, hcall, h⟩ := h
      obtain ⟨l, hadvance, rfl⟩ := Common.call_eq_some hcall
      cases phase' with
      | finished reply =>
          cases h
          exact WorkerStep.failReturn unit reply hadvance
      | _ =>
          cases h
          exact WorkerStep.failStep unit hadvance nofun
  | stopped => cases h

theorem Worker.eq_stopped {worker : Worker Local} (h : worker.hasStopped = true) :
    worker = .stopped := by
  cases worker <;> first | rfl | cases h

theorem stepCaller_cases {s s' : State Local Shared} {choice : Latch.Choice} {caller : Caller}
    (h : p.stepCaller s caller choice = some s') : CallerStep p s choice caller s' := by
  cases caller with
  | starting =>
      cases choice with
      | proceed =>
          simp only [Plan.stepCaller] at h
          split at h
          next hmissing =>
            cases h
            exact CallerStep.spawn hmissing
          next henough =>
            cases h
            exact CallerStep.begin (Nat.le_of_not_lt henough)
      | spurious | expire => cases h
  | failing phase =>
      simp only [Plan.stepCaller, bind, Option.bind_eq_some_iff] at h
      obtain ⟨⟨c, phase'⟩, hcall, h⟩ := h
      obtain ⟨l, hadvance, rfl⟩ := Common.call_eq_some hcall
      cases phase' with
      | finished reply =>
          cases h
          exact CallerStep.failReturn reply hadvance
      | _ =>
          cases h
          exact CallerStep.failStep hadvance nofun
  | waiting phase =>
      simp only [Plan.stepCaller, bind, Option.bind_eq_some_iff] at h
      obtain ⟨⟨c, phase'⟩, hcall, h⟩ := h
      obtain ⟨l, hadvance, rfl⟩ := Common.call_eq_some hcall
      cases phase' with
      | finished reply =>
          cases h
          exact CallerStep.waitReturn reply hadvance
      | _ =>
          cases h
          exact CallerStep.waitStep hadvance nofun
  | cancelling failure =>
      cases choice <;> cases h
      exact CallerStep.cancel failure
  | joining result next =>
      cases choice with
      | proceed =>
          simp only [Plan.stepCaller] at h
          split at h
          next hover =>
            cases h
            exact CallerStep.finish result next hover
          next hstopped =>
            cases h
            exact CallerStep.join result next hstopped
          · cases h
      | spurious | expire => cases h
  | unwinding =>
      cases choice with
      | proceed =>
          simp only [Plan.stepCaller] at h
          split at h
          next hstopped =>
            cases h
            refine CallerStep.escape fun worker hworker => ?_
            exact Worker.eq_stopped (Array.all_eq_true'.mp hstopped worker hworker)
          · cases h
      | spurious | expire => cases h
  | returned _ | panicked => cases h

/-- A pool does nothing but the steps of `Step`. -/
theorem step_cases {s s' : State Local Shared} {label : Label}
    (h : p.step s label = some s') : Step p s label s' := by
  cases label with
  | tick nanoseconds =>
      cases h
      exact Step.tick nanoseconds
  | caller choice => exact Step.caller (stepCaller_cases h)
  | refuse text =>
      simp only [Plan.step, Plan.refuse] at h
      split at h
      next hstarting =>
        split at h
        next hmissing =>
          cases h
          exact Step.refuse text hstarting hmissing
        · cases h
      · cases h
  | worker index choice =>
      simp only [Plan.step, bind, Option.bind_eq_some_iff] at h
      obtain ⟨worker, hworker, ⟨c, worker'⟩, hstep, h⟩ := h
      cases h
      exact Step.worker index hworker (stepWorker_cases hstep)
  | outside call =>
      cases h
      exact Step.outside call
  | bystander index choice =>
      simp only [Plan.step, bind, Option.bind_eq_some_iff] at h
      obtain ⟨phase, hphase, ⟨c, phase'⟩, hcall, h⟩ := h
      obtain ⟨l, hadvance, rfl⟩ := Common.call_eq_some hcall
      cases h
      exact Step.bystander index hphase hadvance

end Pool
end ApiSchema
