import ApiSchema.Assembly.Run
import ApiSchema.Proofs.Assembly.Board
import ApiSchema.Proofs.Pool.Verdict

/-!
The ledger of an assembly.

It balances the board, the workers and the history of a run: a claimed unit has filled its cell or
is about to, a count is the number of empty cells and of elements still to be counted, and a
reporter whose work is done has sent its signal or is about to. Every step of every worker keeps
the balance, so it holds in every interleaving.
-/

namespace ApiSchema
namespace Assembly

open Pool

/-- The reporter that a unit works for. -/
def Task.reporterOf (t : Task) (unit : Nat) : Reporter :=
  (Place.locate t.lengths unit).reporter

def ofReporter (t : Task) (r : Reporter) : Nat → Signal → Bool :=
  fun unit _ => t.reporterOf unit = r

/-- Selects a unit that is about to fill its cell. -/
def fills (unit : Nat) : Nat → UnitState → Bool
  | unit', .filling _ => unit' = unit
  | _, _ => false

def counts (slot : Nat) : Nat → UnitState → Bool
  | _, .counting slot' => slot' = slot
  | _, _ => false

def reports (t : Task) (r : Reporter) : Nat → UnitState → Bool
  | unit, .reporting _ => t.reporterOf unit = r
  | _, _ => false

/-- One for a worker whose unit is in a selected state. -/
def readyAt (test : Nat → UnitState → Bool) : Worker UnitState → Nat
  | .running unit state => (test unit state).toNat
  | _ => 0

/-- How often units in selected states have accessed the board. -/
def accesses (test : Nat → UnitState → Bool) (h : History UnitState) : Nat :=
  h.countP fun
    | .accessed unit state => test unit state
    | _ => false

@[simp] theorem accesses_append (test : Nat → UnitState → Bool) (h h' : History UnitState) :
    accesses test (h ++ h') = accesses test h + accesses test h' :=
  List.countP_append

/-- Whether everything is there that a reporter reports. -/
def Board.done (b : Board) : Reporter → Bool
  | .slot slot => b.pending slot = 0
  | .property index => b.filled (.property index)

/-- Where a worker of an assembly can stand: its unit works on its own place and does not fail. -/
def Task.Placed (t : Task) : Worker UnitState → Prop
  | .running unit (.filling place) => place = Place.locate t.lengths unit
  | .running unit (.counting slot) => t.reporterOf unit = .slot slot
  | .running unit (.reporting kind) => kind = (t.reporterOf unit).kind
  | .running _ (.ending outcome) => outcome = .success
  | .calling unit call _ resume =>
    call = .signal (t.reporterOf unit).kind ∧ ∀ reply, resume reply = .ending .success
  | .failing _ _ => False
  | _ => True

/-- The balance that a step of a worker keeps, from what the worker, the board and the history are
before and after it. -/
structure Balanced (t : Task) (notices : History UnitState) (b b' : Board)
    (worker worker' : Worker UnitState) : Prop where
  claimed : ∀ unit, (claimedUnits notices).count unit +
      (b.filled (Place.locate t.lengths unit)).toNat + readyAt (fills unit) worker =
    (b'.filled (Place.locate t.lengths unit)).toNat + readyAt (fills unit) worker'
  written : ∀ unit, accesses (fills unit) notices +
      (b.filled (Place.locate t.lengths unit)).toNat =
    (b'.filled (Place.locate t.lengths unit)).toNat
  pending : ∀ slot, (b'.pending slot).toNat + b.emptyCells slot + readyAt (counts slot) worker =
    (b.pending slot).toNat + b'.emptyCells slot + readyAt (counts slot) worker'
  counted : ∀ slot, (b'.pending slot).toNat + accesses (counts slot) notices =
    (b.pending slot).toNat
  reported : ∀ r, (b'.done r).toNat + readyAt (reports t r) worker =
    (b.done r).toNat + sent (ofReporter t r) notices + readyAt (reports t r) worker'

/-- The ledger of an assembly. -/
structure Ledger (t : Task) (h : History UnitState) (s : State UnitState Board) : Prop where
  fits : s.common.shared.Fits t
  placed : ∀ worker ∈ s.team, t.Placed worker
  /-- Filled cells hold what belongs there. -/
  contents : ∀ place handle, s.common.shared.cell? place = some (some handle) →
    t.handle? place = some handle
  /-- A claimed unit has filled its cell or is about to. -/
  claimed : ∀ unit, (claimedUnits h).count unit =
    (s.common.shared.filled (Place.locate t.lengths unit)).toNat +
      total (readyAt (fills unit)) s.team
  /-- A cell is written when it is filled, and only then. -/
  written : ∀ unit, accesses (fills unit) h =
    (s.common.shared.filled (Place.locate t.lengths unit)).toNat
  /-- A count is the number of elements that have not been counted. -/
  pending : ∀ slot, (s.common.shared.pending slot).toNat =
    s.common.shared.emptyCells slot + total (readyAt (counts slot)) s.team
  /-- A count goes down by one each time and has begun with all elements. -/
  counted : ∀ slot input, t.slots[slot]? = some input →
    (s.common.shared.pending slot).toNat + accesses (counts slot) h = input.elements.size
  /-- A reporter whose work is done has sent its signal or is about to. -/
  reported : ∀ r ∈ Reporter.all t, (s.common.shared.done r).toNat =
    sent (ofReporter t r) h + total (readyAt (reports t r)) s.team
  /-- Signals are of the kind of their reporter. -/
  kinds : ∀ unit kind, Notice.called unit (.signal kind) ∈ h →
    unit < t.units ∧ kind = (t.reporterOf unit).kind
  succeeded : ∀ unit outcome, Notice.ended unit outcome ∈ h → outcome = .success
  /-- Units fill their own cells. -/
  places : ∀ unit place, Notice.accessed unit (.filling place) ∈ h →
    place = Place.locate t.lengths unit

/-- What a step of a worker does to the board, with what the history notes of it. -/
inductive TaskStep (t : Task) :
    History UnitState → Board → Worker UnitState → Board → Worker UnitState → Prop
  | other {notices : History UnitState} {b : Board} {worker worker' : Worker UnitState}
      (before : ∀ unit state, worker ≠ .running unit state)
      (after : ∀ unit state, worker' = .running unit state → state = .ending .success)
      (placed : t.Placed worker') (unclaimed : claimedUnits notices = [])
      (unended : endedUnits notices = [])
      (unaccessed : ∀ test, accesses test notices = 0)
      (uncalled : ∀ unit call, Notice.called unit call ∉ notices) :
      TaskStep t notices b worker b worker'
  | claim (unit : Nat) (b : Board) :
      TaskStep t [.claimed unit] b .claiming b
        (.running unit (.filling (Place.locate t.lengths unit)))
  | fill (unit : Nat) {b b' : Board} {handle : Handle}
      (belongs : t.handle? (Place.locate t.lengths unit) = some handle)
      (empty : b.filled (Place.locate t.lengths unit) = false)
      (fill : b.Fill (Place.locate t.lengths unit) handle b') :
      TaskStep t [.accessed unit (.filling (Place.locate t.lengths unit))] b
        (.running unit (.filling (Place.locate t.lengths unit))) b'
        (.running unit (Place.locate t.lengths unit).filled)
  | count (unit : Nat) {slot : Nat} {b b' : Board} (place : t.reporterOf unit = .slot slot)
      (pending : 0 < (b.pending slot).toNat) (countDown : b.CountDown slot b') :
      TaskStep t [.accessed unit (.counting slot)] b (.running unit (.counting slot)) b'
        (.running unit (if b.pending slot = 1 then .reporting .slot else .ending .success))
  | send (unit : Nat) (b : Board) (valid : unit < t.units) (resume : Latch.Reply → UnitState)
      (success : ∀ reply, resume reply = .ending .success) :
      TaskStep t [.called unit (.signal (t.reporterOf unit).kind)] b
        (.running unit (.reporting (t.reporterOf unit).kind)) b
        (.calling unit (.signal (t.reporterOf unit).kind)
          (.entering (.signal (t.reporterOf unit).kind)) resume)
  | finish (unit : Nat) (b : Board) :
      TaskStep t [.ended unit .success] b (.running unit (.ending .success)) b .checking

namespace TaskStep

variable {t : Task} {notices : History UnitState} {b b' : Board}
  {worker worker' : Worker UnitState}

theorem sent_eq_zero (huncalled : ∀ unit call, Notice.called unit call ∉ notices)
    (test : Nat → Signal → Bool) : sent test notices = 0 := by
  apply List.countP_eq_zero.mpr
  intro notice hmem
  cases notice with
  | called unit call => exact absurd hmem (huncalled unit call)
  | _ => simp

theorem readyAt_eq_zero (test : Nat → UnitState → Bool)
    (hending : ∀ unit, test unit (.ending .success) = false)
    (hworker : ∀ unit state, worker = .running unit state → state = .ending .success) :
    readyAt test worker = 0 := by
  cases worker with
  | running unit state =>
      rw [hworker unit state rfl]
      simp [readyAt, hending]
  | _ => rfl

theorem other_balanced (before : ∀ unit state, worker ≠ .running unit state)
    (after : ∀ unit state, worker' = .running unit state → state = .ending .success)
    (unclaimed : claimedUnits notices = []) (unaccessed : ∀ test, accesses test notices = 0)
    (uncalled : ∀ unit call, Notice.called unit call ∉ notices) :
    Balanced t notices b b worker worker' := by
  have hbefore : ∀ test, readyAt test worker = 0 := by
    intro test
    cases worker with
    | running unit state => exact absurd rfl (before unit state)
    | _ => rfl
  have hfills := fun unit => readyAt_eq_zero (fills unit) (fun _ => rfl) after
  have hcounts := fun slot => readyAt_eq_zero (counts slot) (fun _ => rfl) after
  have hreports := fun r => readyAt_eq_zero (reports t r) (fun _ => rfl) after
  constructor <;> intro _ <;>
    simp [unclaimed, unaccessed, hbefore, hfills, hcounts, hreports, sent_eq_zero uncalled]

theorem claim_balanced (t : Task) (unit : Nat) (b : Board) :
    Balanced t [.claimed unit] b b .claiming
      (.running unit (.filling (Place.locate t.lengths unit))) := by
  refine ⟨fun unit' => ?_, fun _ => ?_, fun _ => ?_, fun _ => ?_, fun _ => ?_⟩
  · by_cases hunit : unit = unit' <;> simp [claimedUnits, readyAt, fills, hunit, Nat.add_comm]
  all_goals simp [accesses, sent, readyAt, counts, reports]

/-- Filling a cell finishes a property, and brings an element to the count of its slot. -/
theorem fill_balanced {unit : Nat} {place : Place} {handle : Handle}
    (hplace : Place.locate t.lengths unit = place) (empty : b.filled place = false)
    (fill : b.Fill place handle b') :
    Balanced t [.accessed unit (.filling place)] b b' (.running unit (.filling place))
      (.running unit place.filled) := by
  have hfilled : b'.filled place = true := Board.filled_iff.mpr ⟨_, fill.here⟩
  have hothers : ∀ other, other ≠ place → b'.filled other = b.filled other := by
    intro other hother
    simp only [Board.filled, fill.others other hother]
  have hunits : ∀ unit', unit' ≠ unit → b'.filled (Place.locate t.lengths unit') =
      b.filled (Place.locate t.lengths unit') := by
    intro unit' hne
    apply hothers
    rw [← hplace]
    exact fun heq => hne (Place.locate_injective heq)
  refine ⟨fun unit' => ?_, fun unit' => ?_, fun slot => ?_, fun slot => ?_, fun r => ?_⟩
  · by_cases hunit : unit' = unit
    · subst hunit
      rw [hplace, hfilled, empty]
      cases place <;> simp [claimedUnits, readyAt, fills, Place.filled]
    · rw [hunits unit' hunit]
      cases place <;> simp [claimedUnits, readyAt, fills, Ne.symm hunit, Place.filled]
  · by_cases hunit : unit' = unit
    · subst hunit
      simp [accesses, fills, hplace, hfilled, empty]
    · simp [accesses, fills, hunits unit' hunit, Ne.symm hunit]
  · rw [fill.pending, fill.emptyCells]
    cases place with
    | element slot' index =>
        by_cases hslot : slot' = slot <;>
          simp [readyAt, counts, Place.filled, Place.reporter, hslot, Nat.add_assoc]
    | property index => simp [readyAt, counts, Place.filled, Place.reporter]
  · rw [fill.pending]
    simp [accesses, counts]
  · have hreporter : t.reporterOf unit = place.reporter := by rw [Task.reporterOf, hplace]
    cases r with
    | slot slot =>
        cases place <;>
          simp [Board.done, fill.pending, sent, readyAt, reports, Place.filled, hreporter,
            Place.reporter]
    | property index =>
        by_cases hindex : place = .property index
        · subst hindex
          simp [Board.done, hfilled, empty, sent, readyAt, reports, Place.filled, hreporter,
            Place.reporter]
        · have hsame := hothers _ (Ne.symm hindex)
          cases place with
          | element _ _ => simp [Board.done, hsame, sent, readyAt, reports, Place.filled]
          | property index' =>
              have hne : index' ≠ index := fun heq => hindex (by rw [heq])
              simp [Board.done, hsame, sent, readyAt, reports, Place.filled, hreporter,
                Place.reporter, hne]

/-- Counting down a slot that has elements to come finishes it when there is one left. -/
theorem count_balanced {unit slot : Nat} (hreporter : t.reporterOf unit = .slot slot)
    (hpending : 0 < (b.pending slot).toNat) (countDown : b.CountDown slot b') :
    Balanced t [.accessed unit (.counting slot)] b b' (.running unit (.counting slot))
      (.running unit (if b.pending slot = 1 then .reporting .slot else .ending .success)) := by
  have hfilled : ∀ place, b'.filled place = b.filled place := by
    intro place
    simp only [Board.filled, countDown.cells]
  have hone : (1 : UInt64) ≤ b.pending slot := UInt64.le_iff_toNat_le.mpr hpending
  have hdown : (b'.pending slot).toNat + 1 = (b.pending slot).toNat := by
    rw [countDown.here, UInt64.toNat_sub_of_le _ _ hone]
    exact Nat.sub_add_cancel hpending
  have hquiet : ∀ test : Nat → UnitState → Bool, test unit (.reporting .slot) = false →
      test unit (.ending .success) = false →
        readyAt test (.running unit
          (if b.pending slot = 1 then .reporting .slot else .ending .success)) = 0 := by
    intro test hreporting hending
    by_cases hlast : b.pending slot = 1 <;> simp [readyAt, hlast, hreporting, hending]
  refine ⟨fun unit' => ?_, fun unit' => ?_, fun slot' => ?_, fun slot' => ?_, fun r => ?_⟩
  · rw [hfilled, hquiet (fills unit') rfl rfl]
    simp [claimedUnits, readyAt, fills]
  · rw [hfilled]
    simp [accesses, fills]
  · rw [countDown.emptyCells, hquiet (counts slot') rfl rfl]
    by_cases hslot : slot' = slot
    · subst hslot
      simp [readyAt, counts]
      omega
    · simp [readyAt, counts, countDown.others slot' hslot, Ne.symm hslot]
  · by_cases hslot : slot' = slot
    · subst hslot
      simpa [accesses, counts] using hdown
    · simp [accesses, counts, countDown.others slot' hslot, Ne.symm hslot]
  · by_cases hr : r = .slot slot
    · subst hr
      have hold : b.pending slot ≠ 0 := by
        intro hzero
        rw [hzero] at hpending
        cases hpending
      have hlast : b'.pending slot = 0 ↔ b.pending slot = 1 := by
        rw [← UInt64.toNat_inj, ← UInt64.toNat_inj, UInt64.toNat_zero, UInt64.toNat_one]
        omega
      by_cases hone : b.pending slot = 1
      · simp [Board.done, hlast.mpr hone, hone, sent, readyAt, reports, hreporter]
      · simp [Board.done, hlast, hone, hold, sent, readyAt, reports]
    · have hdone : b'.done r = b.done r := by
        cases r with
        | slot slot' =>
            have hne : slot' ≠ slot := fun heq => hr (by rw [heq])
            simp only [Board.done, countDown.others slot' hne]
        | property index => exact hfilled _
      have hnone : reports t r unit (.reporting .slot) = false := by
        simp [reports, hreporter, Ne.symm hr]
      rw [hdone, hquiet (reports t r) hnone rfl]
      simp [sent, readyAt, reports]

theorem send_balanced (t : Task) (unit : Nat) (b : Board) (phase : Latch.Phase)
    (resume : Latch.Reply → UnitState) (kind : Signal) :
    Balanced t [.called unit (.signal kind)] b b (.running unit (.reporting kind))
      (.calling unit (.signal kind) phase resume) := by
  refine ⟨fun _ => ?_, fun _ => ?_, fun _ => ?_, fun _ => ?_, fun r => ?_⟩
  · simp [claimedUnits, readyAt, fills]
  · simp [accesses]
  · simp [readyAt, counts]
  · simp [accesses]
  · by_cases hr : t.reporterOf unit = r <;> simp [sent, readyAt, reports, ofReporter, hr]

/-- Every step of a worker keeps the balance. -/
theorem balanced (hstep : TaskStep t notices b worker b' worker') :
    Balanced t notices b b' worker worker' := by
  cases hstep with
  | other before after _ unclaimed unended unaccessed uncalled =>
      exact other_balanced before after unclaimed unaccessed uncalled
  | claim unit b => exact claim_balanced t unit b
  | fill unit belongs empty fill => exact fill_balanced rfl empty fill
  | count unit place pending countDown => exact count_balanced place pending countDown
  | send unit b valid resume success => exact send_balanced t unit b _ resume _
  | finish unit b =>
      refine ⟨fun _ => ?_, fun _ => ?_, fun _ => ?_, fun _ => ?_, fun _ => ?_⟩ <;>
        simp [claimedUnits, accesses, sent, readyAt, fills, counts, reports]

end TaskStep

variable {t : Task} {workers : Nat} {limit : Option Duration} {h : History UnitState}
  {s s' : State UnitState Board} {label : Label} {c' : Common Board} {me : Thread}
  {choice : Latch.Choice} {worker worker' : Worker UnitState}

theorem units_eq (t : Task) : t.units = t.lengths.sum + t.entries.size := by
  rw [Task.units, List.sum_eq_foldr]

namespace Ledger

/-- A unit that is about to fill its cell finds it empty. -/
theorem empty_of_filling (hledger : Ledger t h s)
    (hacc : Accounted (t.plan workers limit) h s) {i unit : Nat} {place : Place}
    (here : s.team[i]? = some (.running unit (.filling place))) :
    s.common.shared.filled (Place.locate t.lengths unit) = false := by
  have hready := le_total (readyAt (fills unit)) here
  have hclaimed := hledger.claimed unit
  have hle := hacc.count_le_one unit
  simp only [readyAt, fills, decide_true, Bool.toNat_true] at hready
  cases hfilled : s.common.shared.filled (Place.locate t.lengths unit) with
  | false => rfl
  | true =>
      rw [hfilled, Bool.toNat_true] at hclaimed
      omega

/-- A unit that is about to count down a slot finds something to count. -/
theorem pending_of_counting (hledger : Ledger t h s) {i unit slot : Nat}
    (here : s.team[i]? = some (.running unit (.counting slot))) :
    0 < (s.common.shared.pending slot).toNat := by
  have hready := le_total (readyAt (counts slot)) here
  have hpending := hledger.pending slot
  simp only [readyAt, counts, decide_true, Bool.toNat_true] at hready
  omega

theorem cell_of_empty (hledger : Ledger t h s) {place : Place} {handle : Handle}
    (hhandle : t.handle? place = some handle) (hempty : s.common.shared.filled place = false) :
    s.common.shared.cell? place = some none := by
  have hsome := hledger.fits.cells place
  rw [hhandle] at hsome
  obtain ⟨cell, hcell⟩ := Option.isSome_iff_exists.mp hsome
  cases cell with
  | none => exact hcell
  | some handle' =>
      rw [Board.filled_iff.mpr ⟨handle', hcell⟩] at hempty
      cases hempty

end Ledger

theorem handle_of_unit {unit : Nat} (hunit : unit < t.units) :
    ∃ handle, t.handle? (Place.locate t.lengths unit) = some handle := by
  rw [units_eq] at hunit
  exact Task.handle?_isSome (Place.locate_within hunit)

/-- The slot of a unit is one of the task. -/
theorem slot_of_unit {unit slot : Nat} (hunit : unit < t.units)
    (hslot : t.reporterOf unit = .slot slot) : slot < t.slots.size := by
  obtain ⟨handle, hhandle⟩ := handle_of_unit hunit
  cases hplace : Place.locate t.lengths unit with
  | element slot' index =>
      rw [Task.reporterOf, hplace] at hslot
      cases hslot
      rw [hplace] at hhandle
      obtain ⟨input, hinput, _⟩ := Option.bind_eq_some_iff.mp hhandle
      exact (Array.getElem?_eq_some_iff.mp hinput).1
  | property index =>
      rw [Task.reporterOf, hplace] at hslot
      cases hslot

@[simp] theorem accesses_calling (p : Plan UnitState Board) (c : Common Board)
    (test : Nat → UnitState → Bool) (unit : Nat) (call : Latch.Call) (phase : Latch.Phase)
    (resume : Latch.Reply → UnitState) :
    accesses test (p.workerNotices c (.calling unit call phase resume)) = 0 := by
  cases phase <;> rfl

theorem not_called_calling (p : Plan UnitState Board) (c : Common Board) (unit : Nat)
    (call : Latch.Call) (phase : Latch.Phase) (resume : Latch.Reply → UnitState) (unit' : Nat)
    (call' : Latch.Call) :
    Notice.called unit' call' ∉ p.workerNotices c (.calling unit call phase resume) := by
  cases phase <;> simp [Plan.workerNotices]

/-- A unit that has the board for itself does its next access. -/
theorem TaskStep.access (hledger : Ledger t h s) (hacc : Accounted (t.plan workers limit) h s)
    {i unit : Nat} {state : UnitState} {act : Board → UnitState × Board}
    (here : s.team[i]? = some (.running unit state)) (hnext : t.job.next state = .access act) :
    TaskStep t [.accessed unit state] s.common.shared (.running unit state)
      (act s.common.shared).2 (.running unit (act s.common.shared).1) := by
  have hplaced := hledger.placed _ (Array.mem_of_getElem? here)
  have hposition : (Worker.running unit state).position? = some (unit, .ready state) := rfl
  have hunit : unit < t.units :=
    hacc.lt_units (hacc.of_busy here (busy_of_position hposition)).1
  cases state with
  | filling place =>
      cases hnext
      obtain rfl : place = Place.locate t.lengths unit := hplaced
      obtain ⟨handle, hhandle⟩ := handle_of_unit hunit
      have hempty := hledger.empty_of_filling hacc here
      obtain ⟨b', hfill, hspec⟩ := Task.fill_spec hhandle (hledger.cell_of_empty hhandle hempty)
      simp only [hfill]
      exact TaskStep.fill unit hhandle hempty hspec
  | counting slot =>
      cases hnext
      have hslot := slot_of_unit hunit hplaced
      rw [← hledger.fits.slots] at hslot
      obtain ⟨b', hcount, hspec⟩ := Board.countDown_spec hslot
      simp only [hcount]
      exact TaskStep.count unit hplaced (hledger.pending_of_counting here) hspec
  | reporting kind => cases hnext
  | ending outcome => cases hnext

/-- In an assembly, workers do nothing but the steps of `TaskStep`. -/
theorem TaskStep.of_workerStep (hledger : Ledger t h s)
    (hacc : Accounted (t.plan workers limit) h s) {i : Nat} (here : s.team[i]? = some worker)
    (hstep : WorkerStep (t.plan workers limit) s.common me choice worker c' worker') :
    TaskStep t ((t.plan workers limit).workerNotices s.common worker) s.common.shared worker
      c'.shared worker' := by
  have hplaced := hledger.placed _ (Array.mem_of_getElem? here)
  cases hstep with
  | halt _ | goOn _ =>
      exact TaskStep.other (by simp) (by simp) trivial rfl rfl (fun _ => rfl)
        (by simp [Plan.workerNotices])
  | exhaust none_left =>
      rw [workerNotices_exhaust none_left]
      exact TaskStep.other (by simp) (by simp) trivial rfl rfl (fun _ => rfl) (by simp)
  | claim some_left =>
      rw [workerNotices_claim some_left]
      exact TaskStep.claim _ _
  | succeed unit state outcome next success =>
      rw [workerNotices_finish next]
      cases state with
      | ending outcome' =>
          cases next
          obtain rfl : outcome = .success := hplaced
          exact TaskStep.finish unit _
      | _ => cases next
  | fail unit state outcome failure next failed =>
      cases state with
      | ending outcome' =>
          cases next
          obtain rfl : outcome = .success := hplaced
          cases failed
      | _ => cases next
  | access unit state act next =>
      rw [workerNotices_access next]
      exact TaskStep.access hledger hacc here next
  | call unit state call resume next =>
      rw [workerNotices_call next]
      have hposition : (Worker.running unit state).position? = some (unit, .ready state) := rfl
      have hunit : unit < t.units :=
        hacc.lt_units (hacc.of_busy here (busy_of_position hposition)).1
      cases state with
      | reporting kind =>
          cases next
          obtain rfl : kind = (t.reporterOf unit).kind := hplaced
          exact TaskStep.send unit _ hunit _ fun _ => rfl
      | _ => cases next
  | unblock unit state state' next _ => cases state <;> cases next
  | callStep unit call resume _ _ =>
      refine TaskStep.other (by simp) (by simp) hplaced (claimedUnits_calling _ _ _ _)
        (endedUnits_calling _ _ _ _) (fun test => accesses_calling _ _ test unit call _ resume) ?_
      exact not_called_calling _ _ unit call _ resume
  | callReturn unit call reply resume _ =>
      have hsuccess := hplaced.2 reply
      refine TaskStep.other (by simp) ?_ ?_ (claimedUnits_calling _ _ _ _)
        (endedUnits_calling _ _ _ _) (fun test => accesses_calling _ _ test unit call _ resume) ?_
      · intro unit' state heq
        cases heq
        exact hsuccess
      · rw [hsuccess]
        rfl
      · exact not_called_calling _ _ unit call _ resume
  | failStep _ _ _ | failReturn _ _ _ => exact hplaced.elim

namespace TaskStep

variable {notices : History UnitState} {b b' : Board}

theorem placed (hstep : TaskStep t notices b worker b' worker') : t.Placed worker' := by
  cases hstep with
  | other _ _ placed _ _ _ _ => exact placed
  | claim unit b => rfl
  | fill unit belongs empty fill =>
      cases hplace : Place.locate t.lengths unit <;>
        simp [Task.Placed, Place.filled, Task.reporterOf, hplace, Place.reporter, Reporter.kind]
  | count unit place pending countDown =>
      split
      · simp [Task.Placed, place, Reporter.kind]
      · rfl
  | send unit b valid resume success => exact ⟨rfl, success⟩
  | finish unit b => trivial

theorem fits (hstep : TaskStep t notices b worker b' worker') (hfits : b.Fits t) : b'.Fits t := by
  cases hstep with
  | fill unit belongs empty fill => exact hfits.of_fill belongs fill
  | count unit place pending countDown => exact hfits.of_countDown countDown
  | _ => exact hfits

theorem contents (hstep : TaskStep t notices b worker b' worker') (hholds : b.Holds t) :
    b'.Holds t := by
  cases hstep with
  | fill unit belongs empty fill => exact hholds.of_fill belongs fill
  | count unit place pending countDown => exact hholds.of_countDown countDown
  | _ => exact hholds

theorem kinds (hstep : TaskStep t notices b worker b' worker') (unit : Nat) (kind : Signal)
    (hmem : Notice.called unit (.signal kind) ∈ notices) :
    unit < t.units ∧ kind = (t.reporterOf unit).kind := by
  cases hstep with
  | other _ _ _ _ _ _ uncalled => exact absurd hmem (uncalled unit _)
  | send unit' b valid resume success =>
      cases List.mem_singleton.mp hmem
      exact ⟨valid, rfl⟩
  | _ => cases List.mem_singleton.mp hmem

theorem places (hstep : TaskStep t notices b worker b' worker') (unit : Nat) (place : Place)
    (hmem : Notice.accessed unit (.filling place) ∈ notices) :
    place = Place.locate t.lengths unit := by
  cases hstep with
  | other _ _ _ _ _ unaccessed _ =>
      have hnone := List.countP_eq_zero.mp (unaccessed (fills unit)) _ hmem
      simp [fills] at hnone
  | fill unit' belongs empty fill =>
      cases List.mem_singleton.mp hmem
      rfl
  | _ => cases List.mem_singleton.mp hmem

theorem succeeded (hstep : TaskStep t notices b worker b' worker') (unit : Nat)
    (outcome : Outcome) (hmem : Notice.ended unit outcome ∈ notices) : outcome = .success := by
  cases hstep with
  | other _ _ _ _ unended _ _ =>
      exact absurd hmem (Followed.not_mem_of_unended unended unit outcome)
  | finish unit' b =>
      cases List.mem_singleton.mp hmem
      rfl
  | _ => cases List.mem_singleton.mp hmem

end TaskStep

namespace Ledger

/-- The ledger after an event, from the balance that the event keeps. -/
theorem worker_step (hledger : Ledger t h s) {i : Nat} (here : s.team[i]? = some worker)
    {notices : History UnitState}
    (hstep : TaskStep t notices s.common.shared worker c'.shared worker') :
    Ledger t (h ++ notices) { s with common := c', team := s.team.setIfInBounds i worker' } := by
  have hbalanced := hstep.balanced
  refine ⟨hstep.fits hledger.fits, ?_, hstep.contents hledger.contents, ?_, ?_, ?_, ?_, ?_, ?_,
    ?_, ?_⟩
  · intro other hother
    rcases Array.mem_or_eq_of_mem_setIfInBounds hother with hold | rfl
    · exact hledger.placed other hold
    · exact hstep.placed
  · intro unit
    have hset := total_set (readyAt (fills unit)) here worker'
    have hold := hledger.claimed unit
    have hnew := hbalanced.claimed unit
    rw [claimedUnits_append, List.count_append]
    show _ = (c'.shared.filled _).toNat +
      total (readyAt (fills unit)) (s.team.setIfInBounds i worker')
    omega
  · intro unit
    have hold := hledger.written unit
    have hnew := hbalanced.written unit
    rw [accesses_append]
    show _ = (c'.shared.filled _).toNat
    omega
  · intro slot
    have hset := total_set (readyAt (counts slot)) here worker'
    have hold := hledger.pending slot
    have hnew := hbalanced.pending slot
    show (c'.shared.pending slot).toNat = c'.shared.emptyCells slot +
      total (readyAt (counts slot)) (s.team.setIfInBounds i worker')
    omega
  · intro slot input hslot
    have hold := hledger.counted slot input hslot
    have hnew := hbalanced.counted slot
    rw [accesses_append]
    show (c'.shared.pending slot).toNat + _ = _
    omega
  · intro r hr
    have hset := total_set (readyAt (reports t r)) here worker'
    have hold := hledger.reported r hr
    have hnew := hbalanced.reported r
    rw [sent_append]
    show (c'.shared.done r).toNat =
      _ + total (readyAt (reports t r)) (s.team.setIfInBounds i worker')
    omega
  · intro unit kind hmem
    rcases List.mem_append.mp hmem with hbefore | hnow
    · exact hledger.kinds unit kind hbefore
    · exact hstep.kinds unit kind hnow
  · intro unit outcome hmem
    rcases List.mem_append.mp hmem with hbefore | hnow
    · exact hledger.succeeded unit outcome hbefore
    · exact hstep.succeeded unit outcome hnow
  · intro unit place hmem
    rcases List.mem_append.mp hmem with hbefore | hnow
    · exact hledger.places unit place hbefore
    · exact hstep.places unit place hnow

/-- An event that leaves the board and the workers alone keeps the balance. -/
theorem of_same (hledger : Ledger t h s) (hboard : s'.common.shared = s.common.shared)
    (hteam : s'.team = s.team) : Ledger t h s' := by
  obtain ⟨⟨latch, cursor, board, clock⟩, team, caller, bystanders⟩ := s'
  obtain rfl : board = s.common.shared := hboard
  obtain rfl : team = s.team := hteam
  exact ⟨hledger.fits, hledger.placed, hledger.contents, hledger.claimed, hledger.written,
    hledger.pending, hledger.counted, hledger.reported, hledger.kinds, hledger.succeeded,
    hledger.places⟩

/-- A new worker has no unit in its hands. -/
theorem of_spawn (hledger : Ledger t h s) :
    Ledger t h { s with team := s.team.push .checking } := by
  refine ⟨hledger.fits, ?_, hledger.contents, ?_, hledger.written, ?_, hledger.counted, ?_,
    hledger.kinds, hledger.succeeded, hledger.places⟩
  · intro worker hworker
    rcases Array.mem_push.mp hworker with hold | rfl
    · exact hledger.placed worker hold
    · trivial
  · simpa [readyAt] using hledger.claimed
  · simpa [readyAt] using hledger.pending
  · simpa [readyAt] using hledger.reported

theorem step (hledger : Ledger t h s) (hacc : Accounted (t.plan workers limit) h s)
    (hstep : Step (t.plan workers limit) s label s') :
    Ledger t (h ++ (t.plan workers limit).notices s label) s' := by
  cases hstep with
  | tick _ | refuse _ _ _ | outside _ | bystander _ _ _ =>
      rw [show (t.plan workers limit).notices s _ = [] from rfl, List.append_nil]
      exact hledger.of_same rfl rfl
  | caller hstep =>
      rw [show (t.plan workers limit).notices s _ = [] from rfl, List.append_nil]
      generalize s.caller = caller at hstep
      cases hstep with
      | spawn _ => exact hledger.of_spawn
      | _ => exact hledger.of_same rfl rfl
  | worker index here hstep =>
      rw [Plan.notices_worker here]
      exact hledger.worker_step here (TaskStep.of_workerStep hledger hacc here hstep)

end Ledger

/-- A task that is worth its slots: none of them is empty. -/
def Task.Proper (t : Task) : Prop :=
  ∀ (slot : Nat) (input : Slot), t.slots[slot]? = some input → 0 < input.elements.size

theorem Ledger.initial (hproper : t.Proper) (hfits : t.units < 2 ^ 64) :
    Ledger t [] ((t.plan workers limit).initial t.latch (Board.empty t)) := by
  have hsize : ∀ (slot : Nat) (input : Slot), t.slots[slot]? = some input →
      ((Board.empty t).pending slot).toNat = input.elements.size := by
    intro slot input hslot
    have hlt : input.elements.size < 2 ^ 64 := Nat.lt_of_le_of_lt (Task.size_le_units hslot) hfits
    rw [Board.pending_empty hslot, UInt64.toNat_ofNat_of_lt' hlt]
  have hempty := Board.filled_empty t
  refine ⟨Board.fits_empty t, by simp [Plan.initial], Board.holds_empty t, fun unit => ?_,
    fun unit => ?_, fun slot => ?_, fun slot input hslot => ?_, fun r hr => ?_, by simp, by simp,
    by simp⟩
  · simp [Plan.initial, hempty, claimedUnits]
  · simp [Plan.initial, hempty, accesses]
  · cases hslot : t.slots[slot]? with
    | none => simp [Plan.initial, Board.pending, Board.emptyCells, Board.empty, hslot]
    | some input => simpa [Plan.initial, Board.emptyCells_empty hslot] using hsize slot input hslot
  · simpa [Plan.initial, accesses] using hsize slot input hslot
  · cases r with
    | slot slot =>
        simp only [Reporter.all, List.mem_append, List.mem_map, List.mem_range] at hr
        obtain ⟨slot', hlt, heq⟩ | ⟨_, _, heq⟩ := hr
        · cases heq
          have hslot := Array.getElem?_eq_getElem hlt
          have hpos := hproper slot _ hslot
          have hpending := hsize slot _ hslot
          have hne : (Board.empty t).pending slot ≠ 0 := by
            intro hzero
            rw [hzero] at hpending
            rw [← hpending] at hpos
            exact Nat.lt_irrefl 0 hpos
          simp [Plan.initial, Board.done, hne]
        · cases heq
    | property index => simp [Plan.initial, Board.done, hempty]

/-- The ledger balances in every interleaving. -/
theorem Ledger.of_run {around : Surroundings} (hproper : t.Proper)
    (hfits : t.units + (t.plan workers limit).threads < 2 ^ 64)
    (hrun : (t.plan workers limit).Run around
      ((t.plan workers limit).initial t.latch (Board.empty t)) h s) : Ledger t h s := by
  induction hrun with
  | start => exact Ledger.initial hproper (by omega)
  | step label before _ hnext ih => exact ih.step (before.accounted hfits) (step_cases hnext)

end Assembly
end ApiSchema
