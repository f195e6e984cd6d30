import ApiSchema.Pool.Schedule

/-!
Units that follow a script: some acts in order, then an outcome.
-/

namespace ApiSchema
namespace Pool

/-- What a scripted unit can do. -/
inductive Act where
  | signal (kind : Signal)
  | untilCancelled

structure Script where
  acts : List Act
  outcome : Outcome

/-- Where a scripted unit stands: it has not begun, or has a rest of its script before it. -/
inductive ScriptState where
  | beginning (unit : Nat)
  | following (script : Script)

/-- The program of scripted units. A unit first writes its number into the shared list. -/
def scriptJob (script : Nat → Script) : Job ScriptState (List Nat) where
  start := .beginning
  next
    | .beginning unit => .access fun began => (.following (script unit), unit :: began)
    | .following ⟨[], outcome⟩ => .finish outcome
    | .following ⟨.signal kind :: acts, outcome⟩ =>
      .call (.signal kind) fun _ => .following ⟨acts, outcome⟩
    | .following ⟨.untilCancelled :: acts, outcome⟩ => .untilCancelled (.following ⟨acts, outcome⟩)

/-- What came of running scripted units: the caller's result if it has returned, the latch
afterwards, and the units that began, in ascending order. -/
structure ScriptRun where
  result : Option (Except Failure Unit)
  latch : Latch
  began : List Nat

/-- Runs scripted units; units beyond the list signal one property and succeed. -/
def runScripts (units workers : Nat) (limit : Option Duration) (scripts : List Script)
    (latch : Latch) : ScriptRun :=
  let table := scripts.toArray
  let plan : Plan ScriptState (List Nat) := {
    units, workers, limit
    job := scriptJob fun unit => table.getD unit ⟨[.signal .property], .success⟩ }
  let longest := scripts.foldl (fun n script => max n script.acts.length) 1
  let final := plan.run (longest + 2) latch []
  { result := final.result?
    latch := final.common.latch
    began := final.common.shared.mergeSort (· ≤ ·) }

end Pool
end ApiSchema
