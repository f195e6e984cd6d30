import ApiSchema.Latch.Call

/-!
A pool of workers that perform numbered units of work, and a caller that waits for them on a latch.

Workers claim the units in order from a shared cursor until none is left or the latch is cancelled.
A unit that fails or panics is recorded in the latch, and its worker stops. The caller starts the
workers, waits on the latch, cancels if the wait failed, and returns once every worker has stopped.
The system may refuse to start a worker; the caller then records that in the latch and goes on with
those that it has. If the wait panics, so does the caller, once every worker has stopped.

All of it is one machine whose threads take small steps in any order: `Plan.step` is the step that a
label stands for. A job is any program over memory shared by the units; whoever else calls the latch
meanwhile is a bystander.
-/

namespace ApiSchema
namespace Pool

/-- How a unit ends. A panic may carry a text. -/
inductive Outcome where
  | success
  | error (failure : Failure)
  | panic (message : Option String)

/-- What a unit that does not succeed is recorded as. -/
def Outcome.failure? : Outcome → Option Failure
  | success => none
  | error failure => some failure
  | panic message => some (.workerPanicked (message.getD "non-string panic payload"))

/-- What a running unit does next. -/
inductive Move (Local Shared : Type) where
  /-- Ends. -/
  | finish (outcome : Outcome)
  /-- Reads and changes the shared memory in one step. -/
  | access (act : Shared → Local × Shared)
  /-- Calls the latch and goes on with the reply. -/
  | call (call : Latch.Call) (resume : Latch.Reply → Local)
  /-- Blocks until the latch is cancelled. -/
  | untilCancelled (next : Local)

/-- The program of the units: where a unit starts, and what it does next in each of its states. -/
structure Job (Local Shared : Type) where
  start : Nat → Local
  next : Local → Move Local Shared

/-- What a pool is asked to do. -/
structure Plan (Local Shared : Type) where
  units : Nat
  workers : Nat
  limit : Option Duration
  job : Job Local Shared

/-- There are never more threads than units. -/
def Plan.threads {Local Shared : Type} (p : Plan Local Shared) : Nat :=
  min p.workers p.units

/-- Where a worker stands. -/
inductive Worker (Local : Type) where
  /-- About to read the cancellation flag. -/
  | checking
  /-- About to claim a unit. -/
  | claiming
  /-- Performs a unit. -/
  | running (unit : Nat) (state : Local)
  /-- Performs a unit and is inside a call on the latch. -/
  | calling (unit : Nat) (call : Latch.Call) (phase : Latch.Phase)
      (resume : Latch.Reply → Local)
  /-- Records that its unit failed. -/
  | failing (unit : Nat) (phase : Latch.Phase)
  /-- Takes on no more units. -/
  | stopped

/-- Where the caller stands. -/
inductive Caller where
  /-- Starts workers. -/
  | starting
  /-- Records that a worker could not be started. -/
  | failing (phase : Latch.Phase)
  /-- Waits on the latch. -/
  | waiting (phase : Latch.Phase)
  /-- About to cancel after its wait failed. -/
  | cancelling (failure : Failure)
  /-- Waits for the workers from number `next` on to stop. -/
  | joining (result : Except Failure Unit) (next : Nat)
  /-- Has returned. -/
  | returned (result : Except Failure Unit)
  /-- Its wait has panicked, and it waits for all workers to stop. -/
  | unwinding
  /-- Has panicked. -/
  | panicked

/-- What the threads share. -/
structure Common (Shared : Type) where
  latch : Latch
  cursor : UInt64
  shared : Shared
  clock : Nat

structure State (Local Shared : Type) where
  common : Common Shared
  team : Array (Worker Local)
  caller : Caller
  bystanders : Array Latch.Phase

/-- One event. -/
inductive Label where
  /-- Time passes. -/
  | tick (nanoseconds : Nat)
  /-- The caller takes a step. -/
  | caller (choice : Latch.Choice)
  /-- The system refuses to start the next worker, in these words. -/
  | refuse (text : String)
  /-- A worker takes a step. -/
  | worker (index : Nat) (choice : Latch.Choice)
  /-- A bystander begins a call on the latch. -/
  | outside (call : Latch.Call)
  /-- A bystander takes a step. -/
  | bystander (index : Nat) (choice : Latch.Choice)

variable {Local Shared : Type}

/-- The caller is thread 0, the workers follow, and the bystanders come last. -/
def callerThread : Thread := 0

def workerThread (index : Nat) : Thread :=
  index + 1

def Plan.bystanderThread (p : Plan Local Shared) (index : Nat) : Thread :=
  p.threads + 1 + index

/-- The state in which a run begins. Without units nothing is started and nothing waited for. -/
def Plan.initial (p : Plan Local Shared) (latch : Latch) (shared : Shared) :
    State Local Shared where
  common := ⟨latch, 0, shared, 0⟩
  team := #[]
  caller := if p.units = 0 then .returned (.ok ()) else .starting
  bystanders := #[]

def Common.call (c : Common Shared) (me : Thread) (phase : Latch.Phase) (choice : Latch.Choice) :
    Option (Common Shared × Latch.Phase) :=
  (c.latch.advance me c.clock phase choice).map fun (latch, phase) => ({ c with latch }, phase)

/-- What follows when a unit has ended. -/
def Worker.afterUnit (unit : Nat) (outcome : Outcome) : Worker Local :=
  match outcome.failure? with
  | none => .checking
  | some failure => .failing unit (.entering (.fail failure))

/-- The next step of a worker. -/
def Plan.stepWorker (p : Plan Local Shared) (c : Common Shared) (me : Thread) :
    Worker Local → Latch.Choice → Option (Common Shared × Worker Local)
  | .checking, .proceed => some (c, if c.latch.cancelled then .stopped else .claiming)
  | .claiming, .proceed =>
    let unit := c.cursor.toNat
    some ({ c with cursor := c.cursor + 1 },
      if unit < p.units then .running unit (p.job.start unit) else .stopped)
  | .running unit state, .proceed =>
    match p.job.next state with
    | .finish outcome => some (c, .afterUnit unit outcome)
    | .access act =>
      let (state, shared) := act c.shared
      some ({ c with shared }, .running unit state)
    | .call call resume => some (c, .calling unit call (.entering call) resume)
    | .untilCancelled next => if c.latch.cancelled then some (c, .running unit next) else none
  | .calling unit call phase resume, choice => do
    let (c, phase) ← c.call me phase choice
    match phase with
    | .finished reply => return (c, .running unit (resume reply))
    | phase => return (c, .calling unit call phase resume)
  | .failing unit phase, choice => do
    let (c, phase) ← c.call me phase choice
    match phase with
    | .finished _ => return (c, .stopped)
    | phase => return (c, .failing unit phase)
  | _, _ => none

/-- Whether a worker takes on no more units. -/
def Worker.hasStopped : Worker Local → Bool
  | .stopped => true
  | _ => false

def Caller.afterWait : Latch.Reply → Caller
  | .released (.error failure) => .cancelling failure
  | .panicked => .unwinding
  | .released (.ok ()) | .done | .flag _ | .counts _ _ => .joining (.ok ()) 0

/-- The next step of the caller. -/
def Plan.stepCaller (p : Plan Local Shared) (s : State Local Shared) :
    Caller → Latch.Choice → Option (State Local Shared)
  | .starting, .proceed =>
    if s.team.size < p.threads then some { s with team := s.team.push .checking }
    else some { s with caller := .waiting (.entering (.wait p.limit)) }
  | .failing phase, choice => do
    let (common, phase) ← s.common.call callerThread phase choice
    match phase with
    | .finished _ => return { s with common, caller := .waiting (.entering (.wait p.limit)) }
    | phase => return { s with common, caller := .failing phase }
  | .waiting phase, choice => do
    let (common, phase) ← s.common.call callerThread phase choice
    match phase with
    | .finished reply => return { s with common, caller := .afterWait reply }
    | phase => return { s with common, caller := .waiting phase }
  | .cancelling failure, .proceed =>
    some { s with
      common := { s.common with latch := s.common.latch.cancel }
      caller := .joining (.error failure) 0 }
  | .joining result next, .proceed =>
    match s.team[next]? with
    | none => some { s with caller := .returned result }
    | some .stopped => some { s with caller := .joining result (next + 1) }
    | some _ => none
  | .unwinding, .proceed =>
    if s.team.all Worker.hasStopped then some { s with caller := .panicked } else none
  | _, _ => none

/-- The system refuses to start the next worker. The caller starts no more. -/
def Plan.refuse (p : Plan Local Shared) (s : State Local Shared) (text : String) :
    Option (State Local Shared) :=
  match s.caller with
  | .starting =>
    if s.team.size < p.threads then
      some { s with caller := .failing (.entering (.fail (.spawn text))) }
    else none
  | _ => none

def Plan.step (p : Plan Local Shared) (s : State Local Shared) : Label → Option (State Local Shared)
  | .tick nanoseconds =>
    some { s with common := { s.common with clock := s.common.clock + nanoseconds } }
  | .caller choice => p.stepCaller s s.caller choice
  | .refuse text => p.refuse s text
  | .worker index choice => do
    let worker ← s.team[index]?
    let (common, worker) ← p.stepWorker s.common (workerThread index) worker choice
    return { s with common, team := s.team.setIfInBounds index worker }
  | .outside call => some { s with bystanders := s.bystanders.push (.entering call) }
  | .bystander index choice => do
    let phase ← s.bystanders[index]?
    let (common, phase) ← s.common.call (p.bystanderThread index) phase choice
    return { s with common, bystanders := s.bystanders.setIfInBounds index phase }

def State.result? (s : State Local Shared) : Option (Except Failure Unit) :=
  match s.caller with
  | .returned result => some result
  | _ => none

end Pool
end ApiSchema
