import ApiSchema.Assembly.Board
import ApiSchema.Settings.Basic
import ApiSchema.View.Scalars

/-!
Assembling the view of a schema.

Everything but the handles is copied first. The handles are then made by a pool of workers, one unit
for each, and collected from their cells in the order of the document once the latch has let the
caller through. Properties with repeated keys are refused before anything runs. A call that panics,
for a limit past the horizon of the clock, gives no result.
-/

namespace ApiSchema
namespace Assembly

/-- The first entry whose key occurs before it. `seen` are the keys before. -/
def firstRepeated? {α : Type} (seen : List String) :
    List (Source.Entry α) → Option (Source.Entry α)
  | [] => none
  | e :: rest => if e.key ∈ seen then some e else firstRepeated? (e.key :: seen) rest

/-- The handles of a slot in order, if all its cells are filled. -/
def collectSlot (slot : Slot) (cells : Array (Option Handle)) : Except Failure (List Handle) :=
  let handles := cells.toList.filterMap id
  if handles.length = cells.size then .ok handles
  else .error (.incompleteSlot slot.applicator handles.length cells.size)

def collectSlots (view : View) : List (Slot × SlotCells) → Except Failure View
  | [] => .ok view
  | (slot, cells) :: rest => do
    let handles ← collectSlot slot cells.cells
    collectSlots (view.setHandles handles slot.applicator) rest

/-- The handles of the properties under their keys, in order. -/
def collectEntries (handles : OrderedMap Handle) :
    List (Source.Entry ChildId × Option Handle) → Except Failure (OrderedMap Handle)
  | [] => .ok handles
  | (e, some handle) :: rest => collectEntries (OrderedMap.insert e.key handle handles) rest
  | (e, none) :: _ => .error (.incompleteProperty e.key)

/-- Puts the contents of a board into a view. -/
def collect (t : Task) (b : Board) (view : View) : Except Failure View := do
  let view ← collectSlots view (t.slots.toList.zip b.slots.toList)
  let properties ← collectEntries [] (t.entries.toList.zip b.entries.toList)
  return { view with properties }

def Task.plan (t : Task) (workers : Nat) (limit : Option Duration) : Pool.Plan UnitState Board where
  units := t.units
  workers := workers
  limit := limit
  job := t.job

def Task.latch (t : Task) : Latch :=
  { expected := t.expected }

/-- Runs the units of a task. Gives the board, or the failure that ended the run, unless the caller
panics. -/
def Task.run (t : Task) (workers : Nat) (limit : Option Duration) : Option (Except Failure Board) :=
  if t.expected = 0 then some (.ok (Board.empty t))
  else
    let final := (t.plan workers limit).run 4 t.latch (Board.empty t)
    final.result?.map fun
      | .error failure => .error failure
      | .ok () => .ok final.common.shared

/-- The view of a schema, made by at most `workers` threads within the limit. -/
def assemble (workers : Nat) (limit : Option Duration) (id : SchemaId)
    (s : Source.Schema ChildId) : Option (Except Failure View) :=
  match firstRepeated? [] s.entries with
  | some e => some (.error (.duplicateProperty e.key e.keyAt))
  | none =>
    let t := Task.ofSource s
    (t.run workers limit).map fun run => do
      let b ← run
      collect t b (View.scalars id s)

end Assembly
end ApiSchema
