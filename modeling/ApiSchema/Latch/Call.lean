import ApiSchema.Latch.Basic

/-!
Calls on a latch, cut into the steps between which other threads may run.

A thread inside a call is in a `Phase`. `Latch.advance` is the next step of such a thread: it says
what happens to the latch and which phase follows, or that the thread has to wait for others. Each
step is one access to shared state: taking or giving up the lock, a change under the lock, one read
or write of the cancellation flag.
-/

namespace ApiSchema
namespace Latch

/-- What a thread can ask of a latch. -/
inductive Call where
  /-- Report an arrival. -/
  | signal (kind : Signal)
  /-- Record a failure and cancel. -/
  | fail (failure : Failure)
  /-- Cancel without a failure. -/
  | cancel
  /-- Read the cancellation flag. -/
  | isCancelled
  /-- Read the two counts. -/
  | arrived
  /-- Wait for the expected arrivals, no longer than `limit` if there is one. -/
  | wait (limit : Option Duration)

/-- How a call ends. -/
inductive Reply where
  | done
  | flag (cancelled : Bool)
  | counts (slots properties : UInt64)
  | released (result : Except Failure Unit)
  /-- The call has panicked. -/
  | panicked

/-- A wait: when it began, and how long it may last. Times are in nanoseconds. -/
structure Waiting where
  start : Nat
  limit : Option Duration

/-- Where a thread stands inside a call. -/
inductive Phase where
  /-- The call has begun and has not touched the latch. -/
  | entering (call : Call)
  /-- Holds the lock, about to count an arrival. -/
  | counting (kind : Signal)
  /-- Holds the lock, about to record a failure. -/
  | recording (failure : Failure)
  /-- Holds the lock, about to cancel on behalf of a failure. -/
  | flagging
  /-- Holds the lock, about to wake all waiters. -/
  | notifying
  /-- Holds the lock, about to read the counts. -/
  | reading
  /-- Waits, about to take the lock for the first time. -/
  | locking (waiting : Waiting)
  /-- Waits and holds the lock, about to look at the state. -/
  | examining (waiting : Waiting)
  /-- Sleeps, without the lock. -/
  | sleeping (waiting : Waiting)
  /-- Woken, about to take the lock again; `expired` when the limit woke it. -/
  | waking (waiting : Waiting) (expired : Bool)
  /-- Woken and holds the lock. -/
  | resuming (waiting : Waiting) (expired : Bool)
  /-- Holds the lock, has cancelled and is about to give up the wait. -/
  | expiring (start : Nat) (limit : Duration)
  /-- Holds the lock, about to give it up and return. -/
  | releasing (reply : Reply)
  /-- The call has returned. -/
  | finished (reply : Reply)

/-- Which way a step goes where there is a choice: a sleeper may be woken by nobody, or by its
limit. -/
inductive Choice where
  | proceed
  | spurious
  | expire
deriving DecidableEq, Repr

/-- The first instant that the clock cannot name, at `2^63` seconds: it counts them in a signed word
of 64 bits. -/
def horizon : Nat :=
  0x8000000000000000 * Duration.perSecond

/-- Whether a wait that begins now would give up at an instant that the clock cannot name. -/
def overflows (now : Nat) (limit : Option Duration) : Bool :=
  limit.any fun limit => horizon ≤ now + limit.nanoseconds

@[simp] theorem overflows_none (now : Nat) : overflows now none = false := rfl

/-- The first step of a call. A wait works out when it will give up before it takes the lock, and
panics if the clock cannot name that instant. -/
def enter (l : Latch) (me : Thread) (now : Nat) : Call → Option (Latch × Phase)
  | .signal kind => (l.acquire me).map (·, .counting kind)
  | .fail failure => (l.acquire me).map (·, .recording failure)
  | .cancel => some (l.cancel, .finished .done)
  | .isCancelled => some (l, .finished (.flag l.cancelled))
  | .arrived => (l.acquire me).map (·, .reading)
  | .wait limit =>
    if l.expected = 0 then some (l, .finished (.released (.ok ())))
    else if overflows now limit then some (l, .finished .panicked)
    else some (l, .locking ⟨now, limit⟩)

/-- What a waiter that holds the lock does: a failure comes before completion, and without either it
goes to sleep. -/
def examine (l : Latch) (me : Thread) (waiting : Waiting) : Latch × Phase :=
  match l.failure with
  | some failure => (l, .releasing (.released (.error failure)))
  | none =>
    if l.isComplete then (l, .releasing (.released (.ok ())))
    else (l.park me, .sleeping waiting)

/-- What a waiter does once it is awake and holds the lock: if its limit woke it and nothing else
would let it through, it cancels and gives up; otherwise it looks at the state again. -/
def resume (l : Latch) (waiting : Waiting) (expired : Bool) : Latch × Phase :=
  match waiting.limit with
  | some limit =>
    if expired && l.failure.isNone && !l.isComplete then
      (l.cancel, .expiring waiting.start limit)
    else (l, .examining waiting)
  | none => (l, .examining waiting)

/-- The ways out of sleep: being woken, waking for no reason, and reaching the limit. -/
def wake (l : Latch) (me : Thread) (now : Nat) (waiting : Waiting) :
    Choice → Option (Latch × Phase)
  | .proceed => if me ∈ l.parked then none else some (l, .waking waiting false)
  | .spurious => if me ∈ l.parked then some (l.unpark me, .waking waiting false) else none
  | .expire =>
    match waiting.limit with
    | some limit =>
      if me ∈ l.parked ∧ waiting.start + limit.nanoseconds ≤ now then
        some (l.unpark me, .waking waiting true)
      else none
    | none => none

/-- The next step of thread `me` inside a call at time `now`; none while it cannot go on. Only a
sleeper has a choice. -/
def advance (l : Latch) (me : Thread) (now : Nat) : Phase → Choice → Option (Latch × Phase)
  | .sleeping waiting, choice => l.wake me now waiting choice
  | .entering call, .proceed => l.enter me now call
  | .counting kind, .proceed =>
    let l := l.count kind
    some (l, if l.isComplete then .notifying else .releasing .done)
  | .recording failure, .proceed => some (l.record failure, .flagging)
  | .flagging, .proceed => some (l.cancel, .notifying)
  | .notifying, .proceed => some (l.notifyAll, .releasing .done)
  | .reading, .proceed => some (l, .releasing (.counts l.slots l.properties))
  | .locking waiting, .proceed => (l.acquire me).map (·, .examining waiting)
  | .examining waiting, .proceed => some (l.examine me waiting)
  | .waking waiting expired, .proceed => (l.acquire me).map (·, .resuming waiting expired)
  | .resuming waiting expired, .proceed => some (l.resume waiting expired)
  | .expiring start limit, .proceed =>
    some (l, .releasing (.released (.error (.timeout ⟨now - start⟩ limit))))
  | .releasing reply, .proceed => some (l.release, .finished reply)
  | .finished _, _ => none
  | _, _ => none

end Latch
end ApiSchema
