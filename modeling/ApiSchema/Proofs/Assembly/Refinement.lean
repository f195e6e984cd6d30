import ApiSchema.Proofs.Assembly.Collect
import ApiSchema.Proofs.Assembly.Release
import ApiSchema.Proofs.Pool.Budget

/-!
An assembly comes to what a sequential one would, under every schedule.

The programs of the units end, make no calls but signals, and never fail. So every interleaving
ends, with a full board or because the limit has run out, and a full board is collected into the
view that is made in sequence. The schedule that `assemble` follows is one of the interleavings,
and the steps it is given are enough. A limit past the horizon of the clock makes the caller panic.
-/

namespace ApiSchema
namespace Assembly

open Pool

variable {t : Task} {workers : Nat} {limit : Option Duration} {h : History UnitState}
  {s : State UnitState Board} {id : SchemaId} {source : Source.Schema ChildId}
  {result : Except Failure View}

/-- Inside a call, a unit sends a signal, and then it succeeds. -/
theorem Task.visits_inside {unit signals : Nat} {call : Latch.Call}
    {resume : Latch.Reply → UnitState}
    (hvisits : t.job.Visits unit signals (.inside call resume)) :
    (∃ kind, call = .signal kind) ∧ ∀ reply, resume reply = .ending .success := by
  cases hvisits with
  | follow before follows =>
      cases follows with
      | @call state _ _ next =>
          cases state <;> cases next
          exact ⟨⟨_, rfl⟩, fun _ => rfl⟩

theorem Task.next_ne_untilCancelled (t : Task) (state state' : UnitState) :
    t.job.next state ≠ .untilCancelled state' := by
  cases state <;> exact nofun

/-- The units of a task wait for nothing but the lock of the latch. -/
theorem Task.job_unblocked (t : Task) (units : Nat) : t.job.Unblocked units := by
  refine ⟨?_, fun _ _ _ state _ state' => t.next_ne_untilCancelled state state'⟩
  intro unit _ signals call resume hvisits
  obtain ⟨⟨kind, rfl⟩, _⟩ := Task.visits_inside hvisits
  trivial

/-- The price of a position: what its moves may add to the tolls, and one for each move. -/
def price : Position UnitState → Nat
  | .ready (.filling _) => 22
  | .ready (.counting _) => 21
  | .ready (.reporting _) => 20
  | .inside _ _ => 11
  | .ready (.ending _) => 10

/-- A unit that has tried to fill its cell is not to fill it again. -/
theorem price_fill (t : Task) (b : Board) (place : Place) :
    price (.ready (t.fill b place).1) ≤ 21 := by
  unfold Task.fill
  repeat' split
  all_goals simp [price, filledTwice]

theorem price_count (before : UInt64) :
    price (.ready (if before = 1 then .reporting .slot else .ending .success)) ≤ 20 := by
  by_cases hlast : before = 1 <;> simp [price, hlast]

theorem Task.job_priced (t : Task) (units : Nat) : t.job.Priced units price := by
  refine ⟨?_, ?_⟩
  · intro unit _ signals earlier later hvisits hfollows
    cases hfollows with
    | @access state act next shared =>
        cases state <;> cases next
        · exact Nat.lt_succ_of_le (price_fill t shared _)
        · exact Nat.lt_succ_of_le (price_count _)
    | @call state call resume next =>
        cases state <;> cases next
        simp [price, Position.fee, callToll]
    | reply answers resume =>
        rw [(Task.visits_inside hvisits).2]
        simp [price, Position.fee]
    | unblock next => exact absurd next (t.next_ne_untilCancelled _ _)
  · intro unit _ signals state outcome _ hnext
    cases state <;> cases hnext
    simp [price]

/-- Nothing is recorded in the latch of an assembly but arrivals, if every worker is started. -/
theorem Task.Staffed.unfailed (hstaffed : t.Staffed workers limit h s) (hproper : t.Proper)
    (hfits : t.units + (t.plan workers limit).threads < 2 ^ 64) :
    s.common.latch.failure = none := by
  have hledger := Ledger.of_run hproper hfits hstaffed
  have hreported := Plan.Run.reported hstaffed
  have hcalls : t.job.CallsOnly t.units fun call => ∀ failure, call ≠ .fail failure := by
    intro unit _ signals call resume hvisits failure
    obtain ⟨⟨kind, rfl⟩, _⟩ := Task.visits_inside hvisits
    exact nofun
  rcases Plan.Run.firstKept hfits (fun _ => id) (fun _ => id) hcalls hstaffed with
    hhead | ⟨hnone, _⟩
  · cases hfailures : failures h with
    | nil =>
        rw [hfailures] at hhead
        exact hhead
    | cons first rest =>
        obtain ⟨unit, failure⟩ := first
        obtain ⟨outcome, hended, hfailure⟩ :=
          hreported.failed unit failure (hfailures ▸ List.mem_cons_self)
        rw [hledger.succeeded unit outcome hended] at hfailure
        cases hfailure
  · exact hnone

/-- Once all workers have stopped after all units have been claimed, the latch is open. -/
theorem Task.Interleaving.complete (hinter : t.Interleaving workers limit h s)
    (hproper : t.Proper) (hfits : t.units + (t.plan workers limit).threads < 2 ^ 64)
    (hstopped : ∀ worker ∈ s.team, worker = .stopped)
    (hclaimed : claimedUnits h = List.range t.units) : s.common.latch.isComplete = true := by
  have hacc := Plan.Run.accounted hfits hinter
  have hledger := Ledger.of_run hproper hfits hinter
  have hexpected : t.expected < 2 ^ 64 := by
    have hle := hproper.expected_le_units
    omega
  have hended : ∀ unit < t.units, unit ∈ endedUnits h := by
    intro unit hunit
    exact hacc.ended_of_stopped hstopped (hclaimed ▸ List.mem_range.mpr hunit)
  have hall := (hinter.released hproper hfits).arrived_all hended
  rw [hinter.arrived_eq hledger hexpected] at hall
  have harrivals := Plan.Run.arrivals_eq (fun _ => id) hinter
  have hlatch : s.common.latch.expected = t.expected := Plan.Run.expected_eq hinter
  refine decide_eq_true ?_
  rw [harrivals, hlatch, UInt64.toNat_ofNat_of_lt' (by rw [hall]; exact hexpected), hall]

/-- What the assembly of a schema can come to, over all interleavings in which every worker is
started. -/
inductive Assembles (workers : Nat) (limit : Option Duration) (id : SchemaId)
    (source : Source.Schema ChildId) : Except Failure View → Prop
  /-- Repeated keys are refused. -/
  | refused {e : Source.Entry ChildId} (repeated : firstRepeated? [] source.entries = some e) :
      Assembles workers limit id source (.error (.duplicateProperty e.key e.keyAt))
  /-- Without slots and properties, nothing is run. -/
  | idle (distinct : firstRepeated? [] source.entries = none)
      (unneeded : (Task.ofSource source).expected = 0) :
      Assembles workers limit id source
        (collect (Task.ofSource source) (Board.empty (Task.ofSource source))
          (View.scalars id source))
  /-- The run ends with a failure. -/
  | failed (distinct : firstRepeated? [] source.entries = none)
      (needed : (Task.ofSource source).expected ≠ 0) {h : History UnitState}
      {s : State UnitState Board} (inter : (Task.ofSource source).Staffed workers limit h s)
      {failure : Failure} (returned : s.result? = some (.error failure)) :
      Assembles workers limit id source (.error failure)
  /-- The run ends and the board is collected. -/
  | collected (distinct : firstRepeated? [] source.entries = none)
      (needed : (Task.ofSource source).expected ≠ 0) {h : History UnitState}
      {s : State UnitState Board} (inter : (Task.ofSource source).Staffed workers limit h s)
      (returned : s.result? = some (.ok ())) :
      Assembles workers limit id source
        (collect (Task.ofSource source) s.common.shared (View.scalars id source))

/-- Some assembly of the schema panics. -/
def Panics (workers : Nat) (limit : Option Duration) (source : Source.Schema ChildId) : Prop :=
  firstRepeated? [] source.entries = none ∧ ∃ h s,
    (Task.ofSource source).Staffed workers limit h s ∧ s.caller = .panicked

/-- A run that ends well leaves a full board, and one that fails has run past its limit. -/
theorem Task.Staffed.outcome (hstaffed : t.Staffed workers limit h s) (hproper : t.Proper)
    (hfits : t.units + (t.plan workers limit).threads < 2 ^ 64) (hneeded : t.expected ≠ 0)
    {result : Except Failure Unit} (hresult : s.result? = some result) :
    result = .ok () ∧ s.common.shared.Full t ∨
      ∃ elapsed bound, limit = some bound ∧ result = .error (.timeout elapsed bound) := by
  have hinter := hstaffed.interleaving
  have hledger := Ledger.of_run hproper hfits hinter
  have hexpected := hproper.expected_le_units
  have hunits : 1 ≤ t.units := by omega
  have hcaller : s.caller.result? = some result := by
    rw [caller_of_result? hresult]
    rfl
  have hjustified := Plan.Run.justified hunits (fun _ => id) hinter hcaller
  cases result with
  | ok value =>
      have hlatch : s.common.latch.expected = t.expected := Plan.Run.expected_eq hinter
      have hmany : s.common.latch.expected ≤ arrived anySignal h := hjustified
      rw [hlatch, ← hinter.arrived_eq hledger (by omega)] at hmany
      exact Or.inl ⟨rfl, hledger.fits.full ((hinter.released hproper hfits).filled hmany)⟩
  | error failure =>
      rcases hjustified with hfailure | ⟨elapsed, bound, hlimit, htimeout⟩
      · rw [hstaffed.unfailed hproper hfits] at hfailure
        cases hfailure
      · exact Or.inr ⟨elapsed, bound, hlimit, by rw [htimeout]⟩

/-- The schedule of an assembly brings it to its end within the steps it is given. -/
theorem Task.run_gone (hproper : t.Proper)
    (hfits : t.units + (t.plan workers limit).threads < 2 ^ 64)
    (hthreads : 1 ≤ (t.plan workers limit).threads) :
    ((t.plan workers limit).run 4 t.latch (Board.empty t)).caller.Gone :=
  Plan.run_gone hfits hthreads (t.job_unblocked t.units) (t.job_priced t.units)
    (fun _ => by simp [Task.plan, Task.job, price])
    fun _ _ hrun hstopped hclaimed _ =>
      Task.Interleaving.complete hrun hproper hfits hstopped hclaimed

theorem Task.run_ne_panicked (t : Task) (hwithin : Latch.overflows 0 limit = false) :
    ((t.plan workers limit).run 4 t.latch (Board.empty t)).caller ≠ .panicked := by
  have hstands := Plan.run_stands (p := t.plan workers limit) hwithin 4 t.latch (Board.empty t)
  intro hpanicked
  rw [hpanicked] at hstands
  exact hstands trivial

/-- Whatever the interleaving, an assembly of distinct properties comes to the view that is made in
sequence, or runs past its limit. -/
theorem Assembles.eq_or_timeout (hkeys : (source.entries.map (·.key)).Nodup)
    (hmemory : (Task.ofSource source).units < 2 ^ 63)
    (hresult : Assembles workers limit id source result) :
    result = .ok (sequential id source) ∨ ∃ elapsed bound, limit = some bound ∧
      0 < (Task.ofSource source).units ∧ result = .error (.timeout elapsed bound) := by
  have hproper := Task.ofSource_proper source
  have hfits := Task.plan_fits hmemory workers limit
  cases hresult with
  | refused repeated =>
      rw [firstRepeated?_eq_none [] source.entries hkeys] at repeated
      cases repeated
  | idle _ unneeded => exact Or.inl (collect_eq id hkeys (Board.full_empty unneeded))
  | failed _ needed inter returned =>
      rcases inter.outcome hproper hfits needed returned with
        ⟨hok, _⟩ | ⟨elapsed, bound, hlimit, htimeout⟩
      · cases hok
      · cases htimeout
        have hexpected := hproper.expected_le_units
        exact Or.inr ⟨elapsed, bound, hlimit, by omega, rfl⟩
  | collected _ needed inter returned =>
      rcases inter.outcome hproper hfits needed returned with ⟨_, hfull⟩ | ⟨_, _, _, htimeout⟩
      · exact Or.inl (collect_eq id hkeys hfull)
      · cases htimeout

theorem panicked_of_gone (hgone : s.caller.Gone) (hnone : s.result? = none) :
    s.caller = .panicked := by
  cases hcaller : s.caller with
  | panicked => rfl
  | returned result => simp [State.result?, hcaller] at hnone
  | _ =>
      rw [hcaller] at hgone
      exact hgone.elim

/-- If there is something to do, `assemble` collects the board of the run that the schedule makes. -/
theorem assemble_of_needed (hdistinct : firstRepeated? [] source.entries = none)
    (hneeded : (Task.ofSource source).expected ≠ 0) :
    assemble workers limit id source =
      (((Task.ofSource source).plan workers limit).run 4 (Task.ofSource source).latch
        (Board.empty (Task.ofSource source))).result?.map fun
          | .error failure => .error failure
          | .ok () => collect (Task.ofSource source)
              (((Task.ofSource source).plan workers limit).run 4 (Task.ofSource source).latch
                (Board.empty (Task.ofSource source))).common.shared (View.scalars id source) := by
  unfold assemble
  simp only [hdistinct, Task.run, if_neg hneeded, Option.map_map]
  congr 1
  funext ending
  cases ending <;> rfl

/-- The schedule that `assemble` follows is one of the interleavings. -/
theorem assembles_of_assemble (hresult : assemble workers limit id source = some result) :
    Assembles workers limit id source result := by
  cases hrepeated : firstRepeated? [] source.entries with
  | some e =>
      rw [assemble, hrepeated] at hresult
      cases hresult
      exact Assembles.refused hrepeated
  | none =>
      by_cases hunneeded : (Task.ofSource source).expected = 0
      · simp only [assemble, hrepeated, Task.run, if_pos hunneeded] at hresult
        cases hresult
        exact Assembles.idle hrepeated hunneeded
      · obtain ⟨h, hstaffed⟩ := ((Task.ofSource source).plan workers limit).exists_run nobody 4
          (Task.ofSource source).latch (Board.empty (Task.ofSource source))
        rw [assemble_of_needed hrepeated hunneeded, Option.map_eq_some_iff] at hresult
        obtain ⟨ending, hreturned, rfl⟩ := hresult
        cases ending with
        | error failure => exact Assembles.failed hrepeated hunneeded hstaffed hreturned
        | ok value => exact Assembles.collected hrepeated hunneeded hstaffed hreturned

/-- Where `assemble` gives nothing, that schedule has made the caller panic. -/
theorem panics_of_assemble (hmemory : (Task.ofSource source).units < 2 ^ 63)
    (hworkers : 1 ≤ workers) (hresult : assemble workers limit id source = none) :
    Panics workers limit source ∧ Latch.overflows 0 limit = true := by
  have hproper := Task.ofSource_proper source
  cases hrepeated : firstRepeated? [] source.entries with
  | some e =>
      rw [assemble, hrepeated] at hresult
      cases hresult
  | none =>
      by_cases hunneeded : (Task.ofSource source).expected = 0
      · simp only [assemble, hrepeated, Task.run, if_pos hunneeded] at hresult
        cases hresult
      · obtain ⟨h, hstaffed⟩ := ((Task.ofSource source).plan workers limit).exists_run nobody 4
          (Task.ofSource source).latch (Board.empty (Task.ofSource source))
        have hunits : 1 ≤ (Task.ofSource source).units := by
          have hexpected := hproper.expected_le_units
          omega
        have hthreads : 1 ≤ ((Task.ofSource source).plan workers limit).threads :=
          Nat.le_min.mpr ⟨hworkers, hunits⟩
        have hgone := Task.run_gone hproper (Task.plan_fits hmemory workers limit) hthreads
        rw [assemble_of_needed hrepeated hunneeded, Option.map_eq_none_iff] at hresult
        have hpanicked := panicked_of_gone hgone hresult
        refine ⟨⟨hrepeated, h, _, hstaffed, hpanicked⟩, ?_⟩
        cases hwithin : Latch.overflows 0 limit with
        | true => rfl
        | false => exact absurd hpanicked (Task.run_ne_panicked _ hwithin)

/-- Within the horizon of the clock, `assemble` gives a result. -/
theorem exists_assemble (id : SchemaId) (hmemory : (Task.ofSource source).units < 2 ^ 63)
    (hworkers : 1 ≤ workers) (hwithin : Latch.overflows 0 limit = false) : ∃ result,
      assemble workers limit id source = some result ∧
        Assembles workers limit id source result := by
  cases hresult : assemble workers limit id source with
  | some result => exact ⟨result, rfl, assembles_of_assemble hresult⟩
  | none =>
      rw [(panics_of_assemble hmemory hworkers hresult).2] at hwithin
      cases hwithin

/-- No interleaving of an assembly gets stuck or goes on forever. -/
theorem Task.ends (hproper : t.Proper) (hfits : t.units + (t.plan workers limit).threads < 2 ^ 64)
    (hworkers : 1 ≤ workers) (hunits : t.units ≠ 0) :
    (t.plan workers limit).Ends (t.plan workers limit).Over
      ((t.plan workers limit).initial t.latch (Board.empty t)) := by
  have hthreads : 1 ≤ (t.plan workers limit).threads :=
    Nat.le_min.mpr ⟨hworkers, Nat.one_le_iff_ne_zero.mpr hunits⟩
  exact Plan.ends_of_complete hfits hthreads (t.job_unblocked _) (t.job_priced _).terminates
    fun _ _ hrun hstopped hclaimed _ =>
      Task.Interleaving.complete hrun hproper hfits hstopped hclaimed

end Assembly
end ApiSchema
