import ApiSchema.Assembly.Board
import ApiSchema.Proofs.Assembly.Place
import ApiSchema.Proofs.Pool.Team

/-!
What the units of an assembly do to its board.

Cells are named by places. Filling a cell changes that cell alone, and counting down a slot changes
its count alone.
-/

namespace ApiSchema
namespace Assembly

variable {t : Task} {b b' : Board} {place : Place} {handle : Handle}

/-- The handle that belongs into the cell of a place. -/
def Task.handle? (t : Task) : Place → Option Handle
  | .element slot index => t.slots[slot]?.bind fun s => s.elements[index]?.map Handle.ofElement
  | .property index => t.entries[index]?.map Handle.ofEntry

namespace Board

/-- The cell of a place, if there is one. -/
def cell? (b : Board) : Place → Option (Option Handle)
  | .element slot index => b.slots[slot]?.bind fun s => s.cells[index]?
  | .property index => b.entries[index]?

def filled (b : Board) (place : Place) : Bool :=
  (b.cell? place).any Option.isSome

/-- The count of a slot. -/
def pending (b : Board) (slot : Nat) : UInt64 :=
  match b.slots[slot]? with
  | some cells => cells.pending
  | none => 0

def emptyCells (b : Board) (slot : Nat) : Nat :=
  match b.slots[slot]? with
  | some cells => (cells.cells.toList.map fun cell => if cell.isNone then 1 else 0).sum
  | none => 0

end Board

/-- A board with the cells that a task needs. -/
structure Board.Fits (b : Board) (t : Task) : Prop where
  slots : b.slots.size = t.slots.size
  cells : ∀ place, (b.cell? place).isSome = (t.handle? place).isSome

/-- Every filled cell holds the handle that belongs there. -/
def Board.Holds (b : Board) (t : Task) : Prop :=
  ∀ place handle, b.cell? place = some (some handle) → t.handle? place = some handle

/-- The place a unit goes on from once it has filled its cell. -/
def Place.filled : Place → UnitState
  | .element slot _ => .counting slot
  | .property _ => .reporting .property

namespace Board

theorem filled_iff : b.filled place = true ↔ ∃ handle, b.cell? place = some (some handle) := by
  simp only [filled, Option.any_eq_true, Option.isSome_iff_exists]
  constructor
  · rintro ⟨_, hcell, handle, rfl⟩
    exact ⟨handle, hcell⟩
  · rintro ⟨handle, hcell⟩
    exact ⟨_, hcell, handle, rfl⟩

/-- What it means to fill the cell of a place. -/
structure Fill (b : Board) (place : Place) (handle : Handle) (b' : Board) : Prop where
  here : b'.cell? place = some (some handle)
  others : ∀ other, other ≠ place → b'.cell? other = b.cell? other
  slots : b'.slots.size = b.slots.size
  pending : ∀ slot, b'.pending slot = b.pending slot
  emptyCells : ∀ slot, b.emptyCells slot =
    b'.emptyCells slot + if place.reporter = .slot slot then 1 else 0

theorem lookup_set {α : Type} {items : Array α} {i : Nat} (hi : i < items.size) (item : α)
    (j : Nat) : (items.setIfInBounds i item)[j]? = if i = j then some item else items[j]? := by
  rw [Array.getElem?_setIfInBounds]
  by_cases hj : i = j
  · rw [if_pos hj, if_pos hj, if_pos hi]
  · rw [if_neg hj, if_neg hj]

theorem fillElement_spec {slot index : Nat} (handle : Handle)
    (hcell : b.cell? (.element slot index) = some none) :
    ∃ b', b.fillElement slot index handle = some b' ∧
      b.Fill (.element slot index) handle b' := by
  obtain ⟨cells, hslot, hcell⟩ := Option.bind_eq_some_iff.mp hcell
  have hslots := lookup_set (Array.getElem?_eq_some_iff.mp hslot).1
    { cells with cells := cells.cells.setIfInBounds index (some handle) }
  have hcells := lookup_set (Array.getElem?_eq_some_iff.mp hcell).1 (some handle)
  refine ⟨{ b with
      slots := b.slots.setIfInBounds slot
        { cells with cells := cells.cells.setIfInBounds index (some handle) } },
    by simp only [fillElement, hslot, hcell], ?_, ?_, by simp, ?_, ?_⟩
  · simp [cell?, hslots, hcells]
  · intro other hother
    cases other with
    | property _ => rfl
    | element slot' index' =>
        by_cases hslot' : slot = slot'
        · subst hslot'
          have hne : index ≠ index' := by
            rintro rfl
            exact hother rfl
          simp [cell?, hslots, hcells, hslot, hne]
        · simp [cell?, hslots, hslot']
  · intro slot'
    by_cases hslot' : slot = slot'
    · subst hslot'
      simp [pending, hslots, hslot]
    · simp [pending, hslots, hslot']
  · intro slot'
    by_cases hslot' : slot = slot'
    · subst hslot'
      have hempty : cells.cells.toList[index]? = some none := by simpa using hcell
      have hsum := Pool.sum_map_set (fun cell : Option Handle => if cell.isNone then 1 else 0)
        hempty (some handle)
      simp only [emptyCells, hslots, hslot]
      simpa [Place.reporter] using hsum.symm
    · simp [emptyCells, hslots, hslot', Place.reporter]

theorem fillEntry_spec {index : Nat} (handle : Handle)
    (hcell : b.cell? (.property index) = some none) :
    ∃ b', b.fillEntry index handle = some b' ∧ b.Fill (.property index) handle b' := by
  have hentry : b.entries[index]? = some none := hcell
  have hentries := lookup_set (Array.getElem?_eq_some_iff.mp hentry).1 (some handle)
  refine ⟨{ b with entries := b.entries.setIfInBounds index (some handle) },
    by simp only [fillEntry, hentry], ?_, ?_, rfl, fun _ => rfl, fun _ => rfl⟩
  · simp [cell?, hentries]
  · intro other hother
    cases other with
    | element _ _ => rfl
    | property index' =>
        have hne : index ≠ index' := by
          rintro rfl
          exact hother rfl
        simp [cell?, hentries, hne]

/-- What it means to count down a slot. -/
structure CountDown (b : Board) (slot : Nat) (b' : Board) : Prop where
  cells : ∀ place, b'.cell? place = b.cell? place
  slots : b'.slots.size = b.slots.size
  here : b'.pending slot = b.pending slot - 1
  others : ∀ other, other ≠ slot → b'.pending other = b.pending other
  emptyCells : ∀ other, b'.emptyCells other = b.emptyCells other

theorem countDown_spec {slot : Nat} (hslot : slot < b.slots.size) :
    ∃ b', b.countDown slot = (b.pending slot, b') ∧ b.CountDown slot b' := by
  obtain ⟨cells, hlookup⟩ : ∃ cells, b.slots[slot]? = some cells :=
    ⟨_, Array.getElem?_eq_getElem hslot⟩
  have hslots := lookup_set hslot { cells with pending := cells.pending - 1 }
  refine ⟨{ b with
      slots := b.slots.setIfInBounds slot { cells with pending := cells.pending - 1 } },
    by simp only [countDown, pending, hlookup], ?_, by simp, ?_, ?_, ?_⟩
  · intro place
    cases place with
    | property _ => rfl
    | element slot' index =>
        by_cases hslot' : slot = slot'
        · subst hslot'
          simp [cell?, hslots, hlookup]
        · simp [cell?, hslots, hslot']
  · simp [pending, hslots, hlookup]
  · intro other hother
    simp [pending, hslots, Ne.symm hother]
  · intro other
    by_cases hslot' : slot = other
    · subst hslot'
      simp [emptyCells, hslots, hlookup]
    · simp [emptyCells, hslots, hslot']

/-- A slot without empty cells has all its cells filled. -/
theorem filled_of_emptyCells {slot index : Nat} (hempty : b.emptyCells slot = 0)
    (hcell : (b.cell? (.element slot index)).isSome = true) :
    b.filled (.element slot index) = true := by
  obtain ⟨cell, hcell⟩ := Option.isSome_iff_exists.mp hcell
  obtain ⟨cells, hslot, hcell'⟩ := Option.bind_eq_some_iff.mp hcell
  have hmem : cell ∈ cells.cells.toList := by simpa using Array.mem_of_getElem? hcell'
  simp only [emptyCells, hslot] at hempty
  have hzero := List.sum_eq_zero_iff.mp hempty _ (List.mem_map_of_mem hmem)
  cases cell with
  | none => simp at hzero
  | some handle => exact filled_iff.mpr ⟨handle, hcell⟩

/-- A slot with all its cells filled has no empty cells. -/
theorem emptyCells_eq_zero {slot : Nat}
    (hfilled : ∀ index, (b.cell? (.element slot index)).isSome = true →
      b.filled (.element slot index) = true) : b.emptyCells slot = 0 := by
  cases hslot : b.slots[slot]? with
  | none => simp [emptyCells, hslot]
  | some cells =>
      simp only [emptyCells, hslot]
      apply List.sum_eq_zero
      intro x hx
      obtain ⟨cell, hcell, rfl⟩ := List.mem_map.mp hx
      obtain ⟨index, hindex, rfl⟩ := List.mem_iff_getElem.mp hcell
      have hlookup : b.cell? (.element slot index) = some cells.cells.toList[index] := by
        have hlt : index < cells.cells.size := by simpa using hindex
        simp [cell?, hslot, hlt]
      obtain ⟨handle, hhandle⟩ := filled_iff.mp (hfilled index (by rw [hlookup]; rfl))
      rw [hlookup] at hhandle
      rw [Option.some.inj hhandle]
      rfl

end Board

/-- A unit that finds its cell empty fills it with the handle that belongs there. -/
theorem Task.fill_spec (hhandle : t.handle? place = some handle)
    (hcell : b.cell? place = some none) :
    ∃ b', t.fill b place = (place.filled, b') ∧ b.Fill place handle b' := by
  cases place with
  | element slot index =>
      obtain ⟨input, hslot, helement⟩ := Option.bind_eq_some_iff.mp hhandle
      obtain ⟨element, hlookup, rfl⟩ := Option.map_eq_some_iff.mp helement
      obtain ⟨b', hfill, hspec⟩ := Board.fillElement_spec (.ofElement element) hcell
      exact ⟨b', by simp only [Task.fill, hslot, hlookup, hfill]; rfl, hspec⟩
  | property index =>
      obtain ⟨entry, hentry, rfl⟩ := Option.map_eq_some_iff.mp hhandle
      obtain ⟨b', hfill, hspec⟩ := Board.fillEntry_spec (.ofEntry entry) hcell
      exact ⟨b', by simp only [Task.fill, hentry, hfill]; rfl, hspec⟩

/-- Filling the cell of a place of a task keeps the cells that the task needs. -/
theorem Board.Fits.of_fill (hfits : b.Fits t) (hhandle : t.handle? place = some handle)
    (hfill : b.Fill place handle b') : b'.Fits t := by
  refine ⟨hfill.slots.trans hfits.slots, fun other => ?_⟩
  by_cases hother : other = place
  · rw [hother, hfill.here, hhandle]
    rfl
  · rw [hfill.others other hother, hfits.cells]

theorem Board.Fits.of_countDown {slot : Nat} (hfits : b.Fits t) (hcount : b.CountDown slot b') :
    b'.Fits t := by
  refine ⟨hcount.slots.trans hfits.slots, fun place => ?_⟩
  rw [hcount.cells, hfits.cells]

theorem Board.Holds.of_fill (hholds : b.Holds t) (hhandle : t.handle? place = some handle)
    (hfill : b.Fill place handle b') : b'.Holds t := by
  intro other handle' hcell
  by_cases hother : other = place
  · subst hother
    rw [hfill.here] at hcell
    cases hcell
    exact hhandle
  · exact hholds other handle' (hfill.others other hother ▸ hcell)

theorem Board.Holds.of_countDown {slot : Nat} (hholds : b.Holds t) (hcount : b.CountDown slot b') :
    b'.Holds t :=
  fun place handle hcell => hholds place handle (hcount.cells place ▸ hcell)

/-- Every place of a task has a handle. -/
theorem Task.handle?_isSome (hplace : place.Within t.lengths t.entries.size) :
    ∃ handle, t.handle? place = some handle := by
  cases place with
  | element slot index =>
      obtain ⟨length, hlength, hindex⟩ := hplace
      simp only [Task.lengths, List.getElem?_map, Option.map_eq_some_iff] at hlength
      obtain ⟨input, hslot, rfl⟩ := hlength
      have hlookup : t.slots[slot]? = some input := by simpa using hslot
      simp [Task.handle?, hlookup, hindex]
  | property index =>
      have hlt : index < t.entries.size := hplace
      simp [Task.handle?, hlt]

/-- Only the places of a task have handles. -/
theorem Task.within_of_handle (hhandle : t.handle? place = some handle) :
    place.Within t.lengths t.entries.size := by
  cases place with
  | element slot index =>
      obtain ⟨input, hslot, helement⟩ := Option.bind_eq_some_iff.mp hhandle
      obtain ⟨element, helement, _⟩ := Option.map_eq_some_iff.mp helement
      have hindex := (Array.getElem?_eq_some_iff.mp helement).1
      exact ⟨input.elements.size, by simp [Task.lengths, hslot], hindex⟩
  | property index =>
      obtain ⟨entry, hentry, _⟩ := Option.map_eq_some_iff.mp hhandle
      exact (Array.getElem?_eq_some_iff.mp hentry).1

/-- Before any unit has run, every cell is there and empty. -/
theorem Board.cell?_empty (t : Task) (place : Place) :
    (Board.empty t).cell? place = (t.handle? place).map fun _ => none := by
  cases place with
  | element slot index =>
      cases hslot : t.slots[slot]? with
      | none => simp [cell?, empty, Task.handle?, hslot]
      | some input =>
          cases helement : input.elements[index]? <;>
            simp [cell?, empty, Task.handle?, hslot, helement]
  | property index =>
      cases hentry : t.entries[index]? <;> simp [cell?, empty, Task.handle?, hentry]

theorem Board.fits_empty (t : Task) : (Board.empty t).Fits t := by
  refine ⟨by simp [empty], fun place => ?_⟩
  rw [cell?_empty, Option.isSome_map]

theorem Board.holds_empty (t : Task) : (Board.empty t).Holds t := by
  intro place handle hcell
  rw [Board.cell?_empty] at hcell
  cases hhandle : t.handle? place <;> simp [hhandle] at hcell

theorem Board.filled_empty (t : Task) (place : Place) : (Board.empty t).filled place = false := by
  cases hhandle : t.handle? place <;> simp [filled, cell?_empty, hhandle]

theorem Board.pending_empty {slot : Nat} {input : Slot} (hslot : t.slots[slot]? = some input) :
    (Board.empty t).pending slot = UInt64.ofNat input.elements.size := by
  simp [pending, empty, hslot]

theorem Board.emptyCells_empty {slot : Nat} {input : Slot} (hslot : t.slots[slot]? = some input) :
    (Board.empty t).emptyCells slot = input.elements.size := by
  simp [emptyCells, empty, hslot]

/-- A slot has no more elements than there are units. -/
theorem Task.size_le_units {slot : Nat} {input : Slot} (hslot : t.slots[slot]? = some input) :
    input.elements.size ≤ t.units := by
  have hmem : input ∈ t.slots.toList := by simpa using Array.mem_of_getElem? hslot
  have hlength : input.elements.size ∈ t.lengths := List.mem_map_of_mem hmem
  have hle := List.le_sum_of_mem hlength
  rw [Task.units, ← List.sum_eq_foldr]
  omega

end Assembly
end ApiSchema
