import ApiSchema.Proofs.Assembly.Ledger
import ApiSchema.Proofs.Pool.Progress

/-!
The latch of an assembly does not open before the cells are full.

The ledger of a run says how many signals there can be: one from each slot and each property, and
only when the work is done. So as many arrivals as are expected mean that nothing is missing.
-/

namespace ApiSchema
namespace Assembly

open Pool

variable {t : Task} {workers : Nat} {limit : Option Duration} {h : History UnitState}
  {s : State UnitState Board}

/-- The reporters that have sent signals, one entry for each signal. -/
def reporters (t : Task) (h : History UnitState) : List Reporter :=
  (senders h).map t.reporterOf

theorem count_reporters (t : Task) (r : Reporter) (h : History UnitState) :
    (reporters t h).count r = sent (ofReporter t r) h := by
  rw [reporters, List.count, List.countP_map]
  exact countP_senders (fun unit => t.reporterOf unit = r) h

theorem length_reporters (t : Task) (h : History UnitState) :
    (reporters t h).length = sent anySignal h := by
  rw [reporters, List.length_map, length_senders]

/-- Every unit works for one of the reporters of its task. -/
theorem reporterOf_mem {unit : Nat} (hunit : unit < t.units) :
    t.reporterOf unit ∈ Reporter.all t := by
  obtain ⟨handle, hhandle⟩ := handle_of_unit hunit
  unfold Task.reporterOf
  cases hplace : Place.locate t.lengths unit with
  | element slot index =>
      have hslot : t.reporterOf unit = .slot slot := by rw [Task.reporterOf, hplace]; rfl
      have hlt := slot_of_unit hunit hslot
      simp [Reporter.all, Place.reporter, hlt]
  | property index =>
      rw [hplace] at hhandle
      obtain ⟨entry, hentry, _⟩ := Option.map_eq_some_iff.mp hhandle
      have hlt := (Array.getElem?_eq_some_iff.mp hentry).1
      simp [Reporter.all, Place.reporter, hlt]

/-- Every cell has its reporter. -/
theorem reporter_mem {place : Place} {handle : Handle} (hhandle : t.handle? place = some handle) :
    place.reporter ∈ Reporter.all t := by
  cases place with
  | element slot index =>
      obtain ⟨input, hslot, _⟩ := Option.bind_eq_some_iff.mp hhandle
      have hlt := (Array.getElem?_eq_some_iff.mp hslot).1
      simp [Reporter.all, Place.reporter, hlt]
  | property index =>
      obtain ⟨entry, hentry, _⟩ := Option.map_eq_some_iff.mp hhandle
      have hlt := (Array.getElem?_eq_some_iff.mp hentry).1
      simp [Reporter.all, Place.reporter, hlt]

namespace Ledger

/-- A reporter has sent a signal at most once. -/
theorem sent_le_one (hledger : Ledger t h s) {r : Reporter} (hr : r ∈ Reporter.all t) :
    sent (ofReporter t r) h ≤ 1 := by
  have hreported := hledger.reported r hr
  have hdone := Bool.toNat_le (s.common.shared.done r)
  omega

/-- What a reporter has reported is done. -/
theorem done_of_sent (hledger : Ledger t h s) {r : Reporter} (hr : r ∈ Reporter.all t)
    (hsent : sent (ofReporter t r) h ≠ 0) : s.common.shared.done r = true := by
  have hreported := hledger.reported r hr
  cases hdone : s.common.shared.done r with
  | true => rfl
  | false =>
      rw [hdone, Bool.toNat_false] at hreported
      omega

/-- A slot that is done has all its cells filled, and so has a property. -/
theorem filled_of_done (hledger : Ledger t h s) {place : Place} {handle : Handle}
    (hhandle : t.handle? place = some handle)
    (hdone : s.common.shared.done place.reporter = true) :
    s.common.shared.filled place = true := by
  have hcell := hledger.fits.cells place
  rw [hhandle] at hcell
  cases place with
  | property index => exact hdone
  | element slot index =>
      have hpending := hledger.pending slot
      rw [of_decide_eq_true hdone] at hpending
      apply Board.filled_of_emptyCells ?_ hcell
      simp only [UInt64.toNat_zero] at hpending
      omega

theorem valid_of_sender (hledger : Ledger t h s) {unit : Nat} (hunit : unit ∈ senders h) :
    unit < t.units := by
  obtain ⟨notice, hmem, heq⟩ := List.mem_filterMap.mp hunit
  cases notice with
  | called unit' call =>
      cases call with
      | signal kind =>
          cases heq
          exact (hledger.kinds unit kind hmem).1
      | _ => cases heq
  | _ => cases heq

theorem reporters_nodup (hledger : Ledger t h s) : (reporters t h).Nodup := by
  rw [List.nodup_iff_count]
  intro r
  by_cases hr : r ∈ Reporter.all t
  · rw [count_reporters]
    exact hledger.sent_le_one hr
  · rw [List.count_eq_zero.mpr]
    · exact Nat.zero_le 1
    · intro hmem
      obtain ⟨unit, hunit, rfl⟩ := List.mem_map.mp hmem
      exact hr (reporterOf_mem (hledger.valid_of_sender hunit))

theorem reporters_subset (hledger : Ledger t h s) : reporters t h ⊆ Reporter.all t := by
  intro r hr
  obtain ⟨unit, hunit, rfl⟩ := List.mem_map.mp hr
  exact reporterOf_mem (hledger.valid_of_sender hunit)

/-- No more signals are sent than the latch expects. -/
theorem sent_le_expected (hledger : Ledger t h s) : sent anySignal h ≤ t.expected := by
  have hsubperm := List.subperm_of_subset hledger.reporters_nodup hledger.reporters_subset
  simpa [length_reporters, Reporter.length_all] using hsubperm.length_le

/-- As many signals as the latch expects come from all reporters. -/
theorem done_of_many (hledger : Ledger t h s) (hmany : t.expected ≤ sent anySignal h)
    {r : Reporter} (hr : r ∈ Reporter.all t) : s.common.shared.done r = true := by
  have hsubperm := List.subperm_of_subset hledger.reporters_nodup hledger.reporters_subset
  have hperm := hsubperm.perm_of_length_le
    (by simpa [length_reporters, Reporter.length_all] using hmany)
  have hcount := List.count_pos_iff.mpr (hperm.mem_iff.mpr hr)
  rw [count_reporters] at hcount
  exact hledger.done_of_sent hr (Nat.ne_of_gt hcount)

end Ledger

/-- The cells that have been written, one entry for each time. -/
def writes (h : History UnitState) : List Place :=
  h.filterMap fun
    | .accessed _ (.filling place) => some place
    | _ => none

/-- The units that have written their cells, one entry for each time. -/
def writers (h : History UnitState) : List Nat :=
  h.filterMap fun
    | .accessed unit (.filling _) => some unit
    | _ => none

theorem count_writers (h : History UnitState) (unit : Nat) :
    (writers h).count unit = accesses (fills unit) h := by
  induction h with
  | nil => rfl
  | cons notice rest ih =>
      cases notice with
      | accessed unit' state =>
          cases state with
          | filling place =>
              simp only [writers, accesses, fills] at ih ⊢
              simp only [List.filterMap_cons, List.count_cons, List.countP_cons, ih]
              by_cases hunit : unit' = unit <;> simp [hunit]
          | _ => simpa [writers, accesses, fills] using ih
      | _ => simpa [writers, accesses] using ih

theorem writes_eq {t : Task} {h : History UnitState}
    (hplaces : ∀ unit place, Notice.accessed unit (.filling place) ∈ h →
      place = Place.locate t.lengths unit) :
    writes h = (writers h).map (Place.locate t.lengths) := by
  induction h with
  | nil => rfl
  | cons notice rest ih =>
      have hrest := ih fun unit place hmem => hplaces unit place (List.mem_cons_of_mem _ hmem)
      cases notice with
      | accessed unit state =>
          cases state with
          | filling place =>
              have hplace := hplaces unit place List.mem_cons_self
              simp only [writes, writers, List.filterMap_cons, List.map_cons, ← hplace] at hrest ⊢
              rw [hrest]
          | _ => simpa [writes, writers] using hrest
      | _ => simpa [writes, writers] using hrest

namespace Ledger

/-- No cell is written twice. -/
theorem writes_nodup (hledger : Ledger t h s) : (writes h).Nodup := by
  have hwriters : (writers h).Nodup := by
    rw [List.nodup_iff_count]
    intro unit
    rw [count_writers, hledger.written]
    exact Bool.toNat_le _
  rw [writes_eq hledger.places]
  exact List.Pairwise.map _ (fun _ _ hne heq => hne (Place.locate_injective heq)) hwriters

/-- Once all units have ended, no worker has one in its hands. -/
theorem idle_of_ended (hacc : Accounted (t.plan workers limit) h s)
    (hended : ∀ unit < t.units, unit ∈ endedUnits h) {worker : Worker UnitState}
    (hworker : worker ∈ s.team) : worker.position? = none := by
  obtain ⟨i, hi, rfl⟩ := Array.mem_iff_getElem.mp hworker
  have here := Array.getElem?_eq_getElem hi
  cases hposition : s.team[i].position? with
  | none => rfl
  | some held =>
      obtain ⟨hclaimed, hunended⟩ := hacc.of_busy here (busy_of_position hposition)
      exact absurd (hended _ (hacc.lt_units hclaimed)) hunended

theorem readyAt_of_ended (hacc : Accounted (t.plan workers limit) h s)
    (hended : ∀ unit < t.units, unit ∈ endedUnits h) (test : Nat → UnitState → Bool) :
    total (readyAt test) s.team = 0 := by
  apply total_eq_zero
  intro worker hworker
  have hidle := idle_of_ended hacc hended hworker
  cases worker with
  | running unit state => cases hidle
  | _ => rfl

theorem inFlight_of_ended (hacc : Accounted (t.plan workers limit) h s)
    (hended : ∀ unit < t.units, unit ∈ endedUnits h) :
    total (Worker.inFlight anySignal) s.team = 0 := by
  apply total_eq_zero
  intro worker hworker
  have hidle := idle_of_ended hacc hended hworker
  cases worker with
  | calling unit call phase resume => cases hidle
  | _ => rfl

/-- Once all units have ended, every cell is filled. -/
theorem filled_of_ended (hledger : Ledger t h s) (hacc : Accounted (t.plan workers limit) h s)
    (hended : ∀ unit < t.units, unit ∈ endedUnits h) {place : Place} {handle : Handle}
    (hhandle : t.handle? place = some handle) : s.common.shared.filled place = true := by
  obtain ⟨unit, hunit, rfl⟩ := Place.exists_unit (Task.within_of_handle hhandle)
  rw [← units_eq] at hunit
  have hclaimed := hledger.claimed unit
  rw [readyAt_of_ended hacc hended, Nat.add_zero] at hclaimed
  have hcount := List.count_pos_iff.mpr (hacc.claimed_of_ended (hended unit hunit))
  cases hfilled : s.common.shared.filled (Place.locate t.lengths unit) with
  | true => rfl
  | false =>
      rw [hfilled, Bool.toNat_false] at hclaimed
      omega

/-- Once all units have ended, every reporter has sent its signal. -/
theorem sent_of_ended (hledger : Ledger t h s) (hacc : Accounted (t.plan workers limit) h s)
    (hended : ∀ unit < t.units, unit ∈ endedUnits h) : t.expected ≤ sent anySignal h := by
  have hfilled : ∀ place handle, t.handle? place = some handle →
      s.common.shared.filled place = true :=
    fun place handle hhandle => hledger.filled_of_ended hacc hended hhandle
  have hdone : ∀ r ∈ Reporter.all t, s.common.shared.done r = true := by
    intro r hr
    cases r with
    | slot slot =>
        have hempty : s.common.shared.emptyCells slot = 0 := by
          apply Board.emptyCells_eq_zero
          intro index hcell
          rw [hledger.fits.cells] at hcell
          obtain ⟨handle, hhandle⟩ := Option.isSome_iff_exists.mp hcell
          exact hfilled _ handle hhandle
        have hpending := hledger.pending slot
        rw [hempty, readyAt_of_ended hacc hended] at hpending
        exact decide_eq_true (UInt64.toNat_inj.mp hpending)
    | property index =>
        simp only [Reporter.all, List.mem_append, List.mem_map, List.mem_range] at hr
        obtain ⟨_, _, heq⟩ | ⟨index', hlt, heq⟩ := hr
        · cases heq
        · cases heq
          exact hfilled (.property index) (.ofEntry t.entries[index]) (by simp [Task.handle?, hlt])
  have hsubset : Reporter.all t ⊆ reporters t h := by
    intro r hr
    have hreported := hledger.reported r hr
    rw [hdone r hr, readyAt_of_ended hacc hended, Bool.toNat_true] at hreported
    apply List.count_pos_iff.mp
    rw [count_reporters]
    omega
  have hlength := (List.subperm_of_subset (Reporter.nodup_all t) hsubset).length_le
  simpa [length_reporters, Reporter.length_all] using hlength

end Ledger

/-- What holds in every state of a run, so that the latch does not open too early. -/
structure Released (t : Task) (h : History UnitState) (s : State UnitState Board) : Prop where
  /-- No cell is written twice. -/
  written_once : (writes h).Nodup
  /-- A filled cell holds the handle of its own element or property. -/
  contents : ∀ place handle, s.common.shared.cell? place = some (some handle) →
    t.handle? place = some handle
  /-- Every signal comes from a slot or a property of the task and is of that kind. -/
  signals : ∀ unit kind, Notice.called unit (.signal kind) ∈ h →
    t.reporterOf unit ∈ Reporter.all t ∧ kind = (t.reporterOf unit).kind
  /-- A slot sends at most one signal, and only when all its cells are filled. -/
  slot_signals : ∀ slot input, t.slots[slot]? = some input →
    sent (ofReporter t (.slot slot)) h ≤ 1 ∧ (sent (ofReporter t (.slot slot)) h ≠ 0 →
      ∀ index < input.elements.size, s.common.shared.filled (.element slot index) = true)
  /-- A property sends at most one signal, and only when its cell is filled. -/
  property_signals : ∀ index < t.entries.size,
    sent (ofReporter t (.property index)) h ≤ 1 ∧ (sent (ofReporter t (.property index)) h ≠ 0 →
      s.common.shared.filled (.property index) = true)
  /-- The count of a slot never goes below zero. -/
  pending : ∀ slot input, t.slots[slot]? = some input →
    (s.common.shared.pending slot).toNat + accesses (counts slot) h = input.elements.size
  /-- No more arrive than are expected. -/
  arrived_le : s.common.latch.slots.toNat + s.common.latch.properties.toNat ≤ t.expected
  /-- When as many have arrived as are expected, every cell is filled. -/
  filled : t.expected ≤ s.common.latch.slots.toNat + s.common.latch.properties.toNat →
    ∀ place handle, t.handle? place = some handle →
      s.common.shared.cell? place = some (some handle)
  /-- When all units have ended, exactly as many have arrived as are expected. -/
  arrived_all : (∀ unit < t.units, unit ∈ endedUnits h) →
    s.common.latch.slots.toNat + s.common.latch.properties.toNat = t.expected

/-- The interleavings of an assembly: nobody but its caller and its workers knows the latch, and the
system may refuse to start workers. -/
def Task.Interleaving (t : Task) (workers : Nat) (limit : Option Duration)
    (h : History UnitState) (s : State UnitState Board) : Prop :=
  (t.plan workers limit).Run refusing ((t.plan workers limit).initial t.latch (Board.empty t)) h s

/-- The interleavings in which every worker is started. -/
def Task.Staffed (t : Task) (workers : Nat) (limit : Option Duration)
    (h : History UnitState) (s : State UnitState Board) : Prop :=
  (t.plan workers limit).Run nobody ((t.plan workers limit).initial t.latch (Board.empty t)) h s

theorem Task.Staffed.interleaving (hstaffed : t.Staffed workers limit h s) :
    t.Interleaving workers limit h s := by
  have hrun : (t.plan workers limit).Run nobody _ h s := hstaffed
  refine hrun.mono ?_ ?_
  · exact fun _ => id
  · exact fun _ => False.elim

/-- No more signals are expected than there are units. -/
theorem Task.Proper.expected_le_units (hproper : t.Proper) : t.expected ≤ t.units := by
  have hlengths : t.lengths.length ≤ t.lengths.sum := by
    apply List.length_le_sum_of_one_le
    intro length hlength
    obtain ⟨input, hinput, rfl⟩ := List.mem_map.mp hlength
    obtain ⟨slot, hslot, rfl⟩ := List.mem_iff_getElem.mp hinput
    have hlt : slot < t.slots.size := by simpa using hslot
    exact hproper slot _ (Array.getElem?_eq_getElem hlt)
  rw [units_eq, Task.expected]
  have hsize : t.lengths.length = t.slots.size := by simp [Task.lengths]
  omega

/-- The slots of a schema come from its non-empty lists. -/
theorem Task.ofSource_proper (source : Source.Schema ChildId) : (Task.ofSource source).Proper := by
  intro slot input hslot
  have hmem := Array.mem_of_getElem? hslot
  simp only [Task.ofSource, List.mem_toArray, List.mem_filterMap] at hmem
  obtain ⟨applicator, _, hinput⟩ := hmem
  split at hinput
  · cases hinput
  next hne =>
    cases hinput
    simpa using List.length_pos_iff.mpr hne

namespace Task.Interleaving

/-- The counts of the latch are the arrivals. -/
theorem arrived_eq (hinter : t.Interleaving workers limit h s) (hledger : Ledger t h s)
    (hfits : t.expected < 2 ^ 64) :
    s.common.latch.slots.toNat + s.common.latch.properties.toNat = arrived anySignal h := by
  have hflight := Plan.Run.flight hinter anySignal
  have hsent := hledger.sent_le_expected
  have hkinds := arrived_kinds h
  have hslots := Plan.Run.countOf (fun _ => id) hinter .slot
  have hproperties := Plan.Run.countOf (fun _ => id) hinter .property
  simp only [Pool.countOf, Task.latch, UInt64.zero_add] at hslots hproperties
  have hslots_lt : arrived (ofKind .slot) h < 2 ^ 64 := by omega
  have hproperties_lt : arrived (ofKind .property) h < 2 ^ 64 := by omega
  rw [hslots, hproperties, UInt64.toNat_ofNat_of_lt' hslots_lt,
    UInt64.toNat_ofNat_of_lt' hproperties_lt, hkinds]

theorem released (hinter : t.Interleaving workers limit h s) (hproper : t.Proper)
    (hfits : t.units + (t.plan workers limit).threads < 2 ^ 64) : Released t h s := by
  have hledger := Ledger.of_run hproper hfits hinter
  have hacc := Plan.Run.accounted hfits hinter
  have hexpected := hproper.expected_le_units
  have harrived := arrived_eq hinter hledger (by omega)
  have hflight := Plan.Run.flight hinter anySignal
  have hsent := hledger.sent_le_expected
  have hslot : ∀ slot input, t.slots[slot]? = some input → Reporter.slot slot ∈ Reporter.all t := by
    intro slot input hslot
    simp [Reporter.all, (Array.getElem?_eq_some_iff.mp hslot).1]
  have hproperty : ∀ index < t.entries.size, Reporter.property index ∈ Reporter.all t := by
    intro index hindex
    simp [Reporter.all, hindex]
  refine ⟨hledger.writes_nodup, hledger.contents, ?_, ?_, ?_, hledger.counted, ?_, ?_, ?_⟩
  · intro unit kind hmem
    obtain ⟨hunit, hkind⟩ := hledger.kinds unit kind hmem
    exact ⟨reporterOf_mem hunit, hkind⟩
  · intro slot input hinput
    have hmem := hslot slot input hinput
    refine ⟨hledger.sent_le_one hmem, fun hsent index hindex => ?_⟩
    have hhandle : t.handle? (.element slot index) = some (.ofElement input.elements[index]) := by
      simp [Task.handle?, hinput, hindex]
    exact hledger.filled_of_done hhandle (hledger.done_of_sent hmem hsent)
  · intro index hindex
    have hmem := hproperty index hindex
    exact ⟨hledger.sent_le_one hmem, fun hsent => hledger.done_of_sent hmem hsent⟩
  · omega
  · intro hmany place handle hhandle
    have hdone := hledger.done_of_many (by omega) (reporter_mem hhandle)
    obtain ⟨handle', hcell⟩ := Board.filled_iff.mp (hledger.filled_of_done hhandle hdone)
    have hbelongs := hledger.contents place handle' hcell
    rw [hhandle] at hbelongs
    rw [hcell, Option.some.inj hbelongs]
  · intro hended
    have hall := hledger.sent_of_ended hacc hended
    have hnone := Ledger.inFlight_of_ended hacc hended
    omega

end Task.Interleaving

/-- A schema in memory has less than `2 ^ 63` elements and properties, since each takes up more
than two bytes. So the cursor does not overflow, however many workers there are. -/
theorem Task.plan_fits (hmemory : t.units < 2 ^ 63) (workers : Nat) (limit : Option Duration) :
    t.units + (t.plan workers limit).threads < 2 ^ 64 := by
  have hthreads : (t.plan workers limit).threads ≤ t.units := Nat.min_le_right _ _
  omega

/-- The latch of an assembly is not released before the results are there, in every state of every
interleaving, for any schema that lies in memory. -/
theorem released_after_filled (source : Source.Schema ChildId)
    (hmemory : (Task.ofSource source).units < 2 ^ 63)
    (hinter : (Task.ofSource source).Interleaving workers limit h s) :
    Released (Task.ofSource source) h s :=
  hinter.released (Task.ofSource_proper source) (Task.plan_fits hmemory workers limit)

/-- A schema with two elements in a list and one property. -/
def pairSource : Source.Schema ChildId where
  allOf := some (.detached [⟨⟨4⟩, .root⟩, ⟨⟨7⟩, .root⟩])
  properties := some (.detached [⟨"name", .root, ⟨9⟩, .root⟩])

theorem pairSource_board :
    Board.empty (Task.ofSource pairSource) = ⟨#[⟨#[none, none], 2⟩], #[none]⟩ := by
  simp [Board.empty, Task.ofSource, pairSource, Applicator.all, Source.Schema.elements,
    Source.Schema.applied, Source.Schema.entries, Source.Field.detached]

/-- Two workers make the three handles and let the caller through. -/
theorem released_after_filled_pair :
    ∃ h s, (Task.ofSource pairSource).Interleaving 2 none h s ∧ s.result? = some (.ok ()) ∧
      Released (Task.ofSource pairSource) h s := by
  obtain ⟨h, hrun⟩ := ((Task.ofSource pairSource).plan 2 none).exists_run refusing 4
    (Task.ofSource pairSource).latch (Board.empty (Task.ofSource pairSource))
  have hresult : (((Task.ofSource pairSource).plan 2 none).run 4 (Task.ofSource pairSource).latch
      (Board.empty (Task.ofSource pairSource))).result? = some (.ok ()) := by
    rw [pairSource_board]
    rfl
  exact ⟨h, _, hrun, hresult, released_after_filled pairSource (by decide) hrun⟩

end Assembly
end ApiSchema
