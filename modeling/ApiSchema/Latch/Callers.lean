import ApiSchema.Latch.Call

/-!
Any number of threads calling one latch.

`Callers` is a latch, a clock and the calls under way. Each label of `Callers.step` is one event:
the clock moves on, a call begins, or a thread takes its next step. Threads are numbered by the
order in which their calls began, one thread for each call.
-/

namespace ApiSchema
namespace Latch

/-- A latch with the calls made on it. -/
structure Callers where
  latch : Latch
  clock : Nat := 0
  threads : Array Phase := #[]

inductive Event where
  /-- Time passes. -/
  | tick (nanoseconds : Nat)
  /-- A thread begins a call. -/
  | begin (call : Call)
  /-- A thread takes a step. -/
  | move (thread : Thread) (choice : Choice)

namespace Callers

def step (s : Callers) : Event → Option Callers
  | .tick nanoseconds => some { s with clock := s.clock + nanoseconds }
  | .begin call => some { s with threads := s.threads.push (.entering call) }
  | .move thread choice => do
    let phase ← s.threads[thread]?
    let (latch, phase) ← s.latch.advance thread s.clock phase choice
    return { s with latch, threads := s.threads.setIfInBounds thread phase }

/-- Lets one thread run with all others at rest, up to `steps` steps. When it sleeps, the clock
moves on to its limit; a sleeper without a limit stays asleep. -/
def runAlone (thread : Thread) : (steps : Nat) → Callers → Callers
  | 0, s => s
  | steps + 1, s =>
    match s.step (.move thread .proceed) with
    | some s => runAlone thread steps s
    | none =>
      match s.threads[thread]? with
      | some (.sleeping ⟨start, some limit⟩) =>
        let s := { s with clock := max s.clock (start + limit.nanoseconds) }
        match s.step (.move thread .expire) with
        | some s => runAlone thread steps s
        | none => s
      | _ => s

end Callers

/-- Makes a call with no other thread around. Gives the reply, or none if the call never returns,
and the latch afterwards. No call takes more than nine steps then. -/
def perform (l : Latch) (call : Call) : Option Reply × Latch :=
  let s := Callers.runAlone 0 12 { latch := l, threads := #[.entering call] }
  let phase : Option Phase := s.threads[0]?
  match phase with
  | some (.finished reply) => (some reply, s.latch)
  | _ => (none, s.latch)

end Latch
end ApiSchema
