import ApiSchema.Pool.Basic

/-!
Running a pool under one fixed schedule.

Workers take steps before the caller, and those with lower numbers before those with higher ones.
Time stands still as long as any thread can move; when all are stuck and the caller sleeps with a
limit, the clock goes to that limit. So a run times out only if it would never end by itself.
-/

namespace ApiSchema
namespace Pool

variable {Local Shared : Type}

def State.candidates (s : State Local Shared) : List Label :=
  (List.range s.team.size).map (.worker · .proceed) ++ [.caller .proceed]

/-- The caller's limit runs out. -/
def Plan.expire (p : Plan Local Shared) (s : State Local Shared) : Option (State Local Shared) :=
  match s.caller with
  | .waiting (.sleeping ⟨start, some limit⟩) => do
    let s ← p.step s (.tick (start + limit.nanoseconds - s.common.clock))
    p.step s (.caller .expire)
  | _ => none

/-- The next state under the schedule. -/
def Plan.scheduled (p : Plan Local Shared) (s : State Local Shared) :
    Option (State Local Shared) :=
  match s.candidates.findSome? (p.step s) with
  | some s => some s
  | none => p.expire s

def Plan.follow (p : Plan Local Shared) : (steps : Nat) → State Local Shared → State Local Shared
  | 0, s => s
  | steps + 1, s =>
    match p.scheduled s with
    | some s => p.follow steps s
    | none => s

/-- Enough steps for units of at most `perUnit` moves: a move takes up to six steps, a worker needs
three more to start and stop, and the caller's own wait and cancellation add a few. -/
def Plan.stepBound (p : Plan Local Shared) (perUnit : Nat) : Nat :=
  p.units * (6 * perUnit + 10) + p.threads * 10 + 32

/-- Runs a plan whose units make at most `perUnit` moves. -/
def Plan.run (p : Plan Local Shared) (perUnit : Nat) (latch : Latch) (shared : Shared) :
    State Local Shared :=
  p.follow (p.stepBound perUnit) (p.initial latch shared)

end Pool
end ApiSchema
