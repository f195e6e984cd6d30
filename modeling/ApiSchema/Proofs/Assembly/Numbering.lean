import ApiSchema.Proofs.Assembly.Contents
import Mathlib.Data.Set.Function

/-!
The units of a task are numbered one to one.

The search for the place of a unit passes over the slots and takes off the length of each. It is the
same on machine words, since no length is ever taken from a smaller number. So the numbers below the
number of units stand for the elements and the properties, each for one of its own, and in every
interleaving a unit that is about to fill a cell finds its input and its cell.
-/

namespace ApiSchema
namespace Assembly

open Pool

namespace Place

/-- The difference of two words, unless it would go below zero. -/
def minus? (a b : UInt64) : Option UInt64 :=
  if b ≤ a then some (a - b) else none

def searchFrom? (slot : Nat) : (lengths : List UInt64) → (unit : UInt64) → Option Place
  | [], unit => some (.property unit.toNat)
  | length :: rest, unit =>
    if unit < length then some (.element slot unit.toNat)
    else (minus? unit length).bind (searchFrom? (slot + 1) rest)

/-- The search of `locate` on machine words. -/
def search? (lengths : List UInt64) (unit : UInt64) : Option Place :=
  searchFrom? 0 lengths unit

/-- The search never takes a length from a smaller number, and comes to the same place. -/
theorem searchFrom?_eq (slot : Nat) (lengths : List UInt64) (unit : UInt64) :
    searchFrom? slot lengths unit =
      some (locateFrom slot (lengths.map UInt64.toNat) unit.toNat) := by
  induction lengths generalizing slot unit with
  | nil => rfl
  | cons length rest ih =>
      rw [searchFrom?, List.map_cons, locateFrom]
      by_cases hlt : unit < length
      · rw [if_pos hlt, if_pos (UInt64.lt_iff_toNat_lt.mp hlt)]
      · have hle : length ≤ unit := UInt64.not_lt.mp hlt
        rw [if_neg hlt, if_neg (mt UInt64.lt_iff_toNat_lt.mpr hlt), minus?, if_pos hle,
          Option.bind_some, ih, UInt64.toNat_sub_of_le _ _ hle]

/-- The units correspond to the elements of the slots and the properties. -/
theorem locate_bijOn (lengths : List Nat) (properties : Nat) :
    Set.BijOn (locate lengths) (Set.Iio (lengths.sum + properties))
      {place | place.Within lengths properties} :=
  ⟨fun _ hunit => locate_within hunit, fun _ _ _ _ h => locate_injective h,
    fun _ hplace => exists_unit hplace⟩

end Place

variable {t : Task} {workers : Nat} {limit : Option Duration} {h : History UnitState}
  {s : State UnitState Board}

/-- A worker that is about to fill a cell performs a unit of the task, at the place of that unit. -/
def Task.AtPlace (t : Task) : Worker UnitState → Prop
  | .running unit (.filling place) => unit < t.units ∧ place = Place.locate t.lengths unit
  | .calling _ _ _ resume => ∀ reply, resume reply = .ending .success
  | _ => True

/-- A unit fills one cell only. -/
theorem Task.atPlace_fill (t : Task) (b : Board) (unit : Nat) (place : Place) :
    t.AtPlace (.running unit (t.fill b place).1) := by
  unfold Task.fill
  repeat' split
  all_goals trivial

theorem Task.atPlace_step {c c' : Common Board} {me : Thread} {choice : Latch.Choice}
    {worker worker' : Worker UnitState}
    (hstep : WorkerStep (t.plan workers limit) c me choice worker c' worker')
    (hworker : t.AtPlace worker) : t.AtPlace worker' := by
  -- Only a claim brings a worker to a cell. What it does next takes it past that cell.
  cases hstep with
  | halt _ | goOn _ | exhaust _ | succeed _ _ _ _ _ | fail _ _ _ _ _ _
  | failStep _ _ _ | failReturn _ _ _ => trivial
  | claim some_left => exact ⟨some_left, rfl⟩
  | access unit state act next =>
      cases state with
      | filling place =>
          cases next
          exact t.atPlace_fill _ unit place
      | counting slot =>
          cases next
          show t.AtPlace (.running unit
            (if (c.shared.countDown slot).1 = 1 then .reporting .slot else .ending .success))
          split <;> trivial
      | reporting kind => cases next
      | ending outcome => cases next
  | call unit state call resume next =>
      cases state with
      | reporting kind =>
          cases next
          exact fun _ => rfl
      | _ => cases next
  | unblock unit state state' next _ => exact absurd next (t.next_ne_untilCancelled state state')
  | callStep _ _ _ _ _ => exact hworker
  | callReturn unit call reply resume _ =>
      rw [hworker reply]
      trivial

/-- In every interleaving, a unit is about to fill the cell of its own place only. -/
theorem Task.Interleaving.atPlace (hinter : t.Interleaving workers limit h s) :
    ∀ worker ∈ s.team, t.AtPlace worker :=
  Plan.Run.team t.AtPlace trivial (fun _ _ _ _ _ _ => Task.atPlace_step) hinter

/-- How the units of a task are numbered. -/
structure Numbered (t : Task) : Prop where
  /-- The numbers below the number of units stand for the elements of the slots and the properties,
  each for one of its own. -/
  one_to_one : Set.BijOn t.job.start (Set.Iio t.units)
    (UnitState.filling '' {place | place.Within t.lengths t.entries.size})
  /-- On machine words, no length is taken from a smaller number. -/
  searched : ∀ (lengths : List UInt64) (unit : UInt64), lengths.map UInt64.toNat = t.lengths →
    ∃ place, Place.search? lengths unit = some place ∧ t.job.start unit.toNat = .filling place
  /-- In every interleaving, a unit that is about to fill a cell is one of the task, and the input
  and the cell are there. -/
  in_bounds : ∀ workers limit h s, t.Interleaving workers limit h s →
    ∀ unit place, .running unit (.filling place) ∈ s.team →
      unit < t.units ∧ t.job.start unit = .filling place ∧
        (t.handle? place).isSome = true ∧ (s.common.shared.cell? place).isSome = true

/-- The units of every task are numbered one to one, whatever the lengths of its slots. -/
theorem units_numbered (t : Task) : Numbered t := by
  refine ⟨?_, fun lengths unit hlengths => ?_, fun workers limit h s hinter unit place hmem => ?_⟩
  · have hfilling : Set.InjOn UnitState.filling {place | place.Within t.lengths t.entries.size} :=
      fun _ _ _ _ heq => UnitState.filling.inj heq
    rw [units_eq]
    exact hfilling.bijOn_image.comp (Place.locate_bijOn t.lengths t.entries.size)
  · refine ⟨Place.locate t.lengths unit.toNat, ?_, rfl⟩
    rw [Place.search?, Place.searchFrom?_eq, hlengths]
    rfl
  · obtain ⟨hunit, rfl⟩ := hinter.atPlace _ hmem
    obtain ⟨handle, hhandle⟩ := handle_of_unit hunit
    have hinput : (t.handle? (Place.locate t.lengths unit)).isSome = true := by
      rw [hhandle]
      rfl
    exact ⟨hunit, rfl, hinput, (hinter.fits.cells _).trans hinput⟩

end Assembly
end ApiSchema
