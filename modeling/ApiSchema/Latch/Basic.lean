import ApiSchema.Failure

/-!
A latch: threads report arrivals to it, and waiters are let through once enough have arrived.

Arrivals are of two kinds that count the same. The first failure recorded is kept and lets waiters
through with that failure. A flag beside the lock tells workers to take on no more work. The latch
holds no results: whoever reports an arrival has stored its result before.

The lock and the queue of parked waiters are part of the state, so that calls from several threads
can interleave (`Latch.advance`). Counts are words of 64 bits.
-/

namespace ApiSchema

/-- A thread, by number. -/
abbrev Thread := Nat

/-- What kind of work an arrival reports. -/
inductive Signal where
  /-- All elements of one applicator list are done. -/
  | slot
  /-- One property is done. -/
  | property
deriving DecidableEq, Repr

/-- The state of a latch. `parked` holds the waiters that sleep and have not been woken. -/
structure Latch where
  expected : Nat
  slots : UInt64 := 0
  properties : UInt64 := 0
  failure : Option Failure := none
  cancelled : Bool := false
  holder : Option Thread := none
  parked : List Thread := []

namespace Latch

def arrivals (l : Latch) : UInt64 :=
  l.slots + l.properties

def isComplete (l : Latch) : Bool :=
  decide (l.expected ≤ l.arrivals.toNat)

/-- Takes the lock if nobody holds it. -/
def acquire (l : Latch) (me : Thread) : Option Latch :=
  match l.holder with
  | none => some { l with holder := some me }
  | some _ => none

def release (l : Latch) : Latch :=
  { l with holder := none }

def count (l : Latch) : Signal → Latch
  | .slot => { l with slots := l.slots + 1 }
  | .property => { l with properties := l.properties + 1 }

/-- Records a failure unless there is one already. -/
def record (l : Latch) (failure : Failure) : Latch :=
  match l.failure with
  | none => { l with failure := some failure }
  | some _ => l

def cancel (l : Latch) : Latch :=
  { l with cancelled := true }

def notifyAll (l : Latch) : Latch :=
  { l with parked := [] }

/-- Puts a waiter to sleep and gives up the lock, in one step. -/
def park (l : Latch) (me : Thread) : Latch :=
  { l with holder := none, parked := me :: l.parked }

def unpark (l : Latch) (me : Thread) : Latch :=
  { l with parked := l.parked.filter (· ≠ me) }

end Latch

end ApiSchema
