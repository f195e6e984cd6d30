import ApiSchema.Assembly.Place
import ApiSchema.Pool.Schedule
import ApiSchema.View.Basic

/-!
The shared memory of an assembly, and the program of its units.

Every element of a non-empty applicator list and every property has a cell of its own, written once
with its handle. A slot also counts how many of its elements are still to come; the unit that takes
the count from one to zero reports the slot to the latch. A property is reported by its own unit.
-/

namespace ApiSchema
namespace Assembly

/-- A non-empty applicator list to be worked through. -/
structure Slot where
  applicator : Applicator
  elements : Array (Source.Element ChildId)

/-- The input of an assembly. -/
structure Task where
  slots : Array Slot
  entries : Array (Source.Entry ChildId)

namespace Task

/-- The input that a schema gives: its non-empty lists in order, and its properties. -/
def ofSource (s : Source.Schema ChildId) : Task where
  slots := (Applicator.all.filterMap fun a =>
    match s.elements a with
    | [] => none
    | elements => some ⟨a, elements.toArray⟩).toArray
  entries := s.entries.toArray

def lengths (t : Task) : List Nat :=
  t.slots.toList.map (·.elements.size)

/-- One unit for each element and each property. -/
def units (t : Task) : Nat :=
  t.lengths.foldr (· + ·) 0 + t.entries.size

/-- One signal for each slot and each property. -/
def expected (t : Task) : Nat :=
  t.slots.size + t.entries.size

end Task

/-- The cells of a slot and the number of elements still to come. -/
structure SlotCells where
  cells : Array (Option Handle)
  pending : UInt64

/-- The memory shared by the units. -/
structure Board where
  slots : Array SlotCells
  entries : Array (Option Handle)

/-- The board before any unit has run. -/
def Board.empty (t : Task) : Board where
  slots := t.slots.map fun slot =>
    ⟨slot.elements.map fun _ => none, UInt64.ofNat slot.elements.size⟩
  entries := t.entries.map fun _ => none

namespace Board

/-- Fills the cell of an element, or says that it was full. -/
def fillElement (b : Board) (slot index : Nat) (handle : Handle) : Option Board :=
  match b.slots[slot]? with
  | none => none
  | some cells =>
    match cells.cells[index]? with
    | some none =>
      some { b with
        slots := b.slots.setIfInBounds slot
          { cells with cells := cells.cells.setIfInBounds index (some handle) } }
    | _ => none

def fillEntry (b : Board) (index : Nat) (handle : Handle) : Option Board :=
  match b.entries[index]? with
  | some none => some { b with entries := b.entries.setIfInBounds index (some handle) }
  | _ => none

/-- Takes one off the count of a slot and gives the count before. -/
def countDown (b : Board) (slot : Nat) : UInt64 × Board :=
  match b.slots[slot]? with
  | none => (0, b)
  | some cells =>
    (cells.pending,
      { b with slots := b.slots.setIfInBounds slot { cells with pending := cells.pending - 1 } })

end Board

/-- Where a unit stands. -/
inductive UnitState where
  /-- About to fill its cell. -/
  | filling (place : Place)
  /-- Has filled its cell, about to take one off the count of its slot. -/
  | counting (slot : Nat)
  /-- About to report to the latch. -/
  | reporting (kind : Signal)
  /-- About to end. -/
  | ending (outcome : Pool.Outcome)

/-- The message of a unit that found its cell full. -/
def filledTwice (what : String) : UnitState :=
  .ending (.error (.internal (what ++ " built twice")))

/-- A unit fills its cell. -/
def Task.fill (t : Task) (b : Board) : Place → UnitState × Board
  | .element slot index =>
    match t.slots[slot]? with
    | none => (filledTwice "slot", b)
    | some input =>
      match input.elements[index]? with
      | none => (filledTwice (input.applicator.name ++ " element " ++ toString index), b)
      | some element =>
        match b.fillElement slot index (.ofElement element) with
        | some b => (.counting slot, b)
        | none => (filledTwice (input.applicator.name ++ " element " ++ toString index), b)
  | .property index =>
    match t.entries[index]? with
    | none => (filledTwice "property", b)
    | some entry =>
      match b.fillEntry index (.ofEntry entry) with
      | some b => (.reporting .property, b)
      | none => (filledTwice ("property '" ++ entry.key ++ "'"), b)

/-- The program of the units of a task. -/
def Task.job (t : Task) : Pool.Job UnitState Board where
  start unit := .filling (Place.locate t.lengths unit)
  next
    | .filling place => .access fun b => t.fill b place
    | .counting slot => .access fun b =>
      let (before, b) := b.countDown slot
      (if before = 1 then .reporting .slot else .ending .success, b)
    | .reporting kind => .call (.signal kind) fun _ => .ending .success
    | .ending outcome => .finish outcome

end Assembly
end ApiSchema
