import ApiSchema.Proofs.Pool.Steps
import ApiSchema.Proofs.Pool.Team

/-!
The units of a pool are claimed in order, each once, and none outlives the run.

The cursor counts the claims. Every claimed unit has either ended or is in the hands of exactly one
worker; when the caller returns, all workers have stopped. This holds for any job, for any latch and
whatever bystanders do, as long as the cursor does not wrap.
-/

namespace ApiSchema
namespace Pool

variable {Local Shared : Type}

/-- The units claimed so far, in order. -/
def claimedUnits (h : History Local) : List Nat :=
  h.filterMap fun
    | .claimed unit => some unit
    | _ => none

def endedUnits (h : History Local) : List Nat :=
  h.filterMap fun
    | .ended unit _ => some unit
    | _ => none

@[simp] theorem claimedUnits_append (h h' : History Local) :
    claimedUnits (h ++ h') = claimedUnits h ++ claimedUnits h' :=
  List.filterMap_append

@[simp] theorem endedUnits_append (h h' : History Local) :
    endedUnits (h ++ h') = endedUnits h ++ endedUnits h' :=
  List.filterMap_append

theorem mem_endedUnits {h : History Local} {unit : Nat} :
    unit ∈ endedUnits h ↔ ∃ outcome, Notice.ended unit outcome ∈ h := by
  simp only [endedUnits, List.mem_filterMap]
  constructor
  · rintro ⟨notice, hmem, heq⟩
    cases notice with
    | ended unit' outcome =>
        obtain rfl := Option.some.inj heq
        exact ⟨outcome, hmem⟩
    | _ => cases heq
  · rintro ⟨outcome, hmem⟩
    exact ⟨_, hmem, rfl⟩

/-- One for a worker that has the unit in its hands. -/
def Worker.busy (unit : Nat) : Worker Local → Nat
  | .running unit' _ | .calling unit' _ _ _ => if unit' = unit then 1 else 0
  | _ => 0

def Worker.idle : Worker Local → Nat
  | .stopped => 1
  | _ => 0

variable {p : Plan Local Shared} {c c' : Common Shared} {me : Thread} {choice : Latch.Choice}
  {worker worker' : Worker Local}

@[simp] theorem claimedUnits_calling (unit : Nat) (call : Latch.Call) (phase : Latch.Phase)
    (resume : Latch.Reply → Local) :
    claimedUnits (p.workerNotices c (.calling unit call phase resume)) = [] := by
  cases phase <;> rfl

@[simp] theorem endedUnits_calling (unit : Nat) (call : Latch.Call) (phase : Latch.Phase)
    (resume : Latch.Reply → Local) :
    endedUnits (p.workerNotices c (.calling unit call phase resume)) = [] := by
  cases phase <;> rfl

@[simp] theorem claimedUnits_failing (unit : Nat) (phase : Latch.Phase) :
    claimedUnits (p.workerNotices c (.failing unit phase)) = [] := by
  cases phase with
  | entering call => cases call <;> rfl
  | _ => rfl

@[simp] theorem endedUnits_failing (unit : Nat) (phase : Latch.Phase) :
    endedUnits (p.workerNotices c (.failing unit phase)) = [] := by
  cases phase with
  | entering call => cases call <;> rfl
  | _ => rfl

/-- A worker that takes a step has not stopped. -/
theorem WorkerStep.ne_stopped (h : WorkerStep p c me choice worker c' worker') :
    worker ≠ .stopped := by
  cases h <;> exact nofun

/-- Who has stopped stays so while another worker takes a step. -/
theorem stopped_of_set {team : Array (Worker Local)} {i j : Nat}
    (hworker : team[i]? = some worker) (hne : worker ≠ .stopped)
    (hstopped : team[j]? = some .stopped) :
    (team.setIfInBounds i worker')[j]? = some .stopped := by
  have hij : i ≠ j := by
    rintro rfl
    rw [hworker] at hstopped
    exact hne (Option.some.inj hstopped)
  rw [Array.getElem?_setIfInBounds_ne hij]
  exact hstopped

/-- The caller has returned or panicked. -/
def Caller.Gone : Caller → Prop
  | .returned _ | .panicked => True
  | _ => False

/-- How far the caller's joins have got: it has joined the workers before a number, or all. -/
def Caller.Joined (team : Array (Worker Local)) : Caller → Prop
  | .joining _ next => ∀ i < next, team[i]? = some .stopped
  | .returned _ | .panicked => ∀ i < team.size, team[i]? = some .stopped
  | _ => True

theorem Caller.Joined.set {team : Array (Worker Local)} {i : Nat} {caller : Caller}
    (h : caller.Joined team) (hworker : team[i]? = some worker) (hne : worker ≠ .stopped) :
    caller.Joined (team.setIfInBounds i worker') := by
  cases caller with
  | joining result next => exact fun j hj => stopped_of_set hworker hne (h j hj)
  | returned _ | panicked =>
      intro j hj
      exact stopped_of_set hworker hne (h j (by simpa using hj))
  | _ => trivial

/-- The bookkeeping of a pool. -/
structure Accounted (p : Plan Local Shared) (h : History Local) (s : State Local Shared) :
    Prop where
  /-- There are no more workers than planned. -/
  team_le : s.team.size ≤ p.threads
  /-- Beyond the units, the cursor moves only for workers that then stop. -/
  cursor_le : s.common.cursor.toNat ≤ p.units + total Worker.idle s.team
  /-- The units are claimed in order. -/
  claims : claimedUnits h = List.range (min s.common.cursor.toNat p.units)
  /-- A claimed unit has ended or is in the hands of a worker. -/
  balance : ∀ unit, (claimedUnits h).count unit =
    (endedUnits h).count unit + total (Worker.busy unit) s.team
  joined : s.caller.Joined s.team

namespace Accounted

variable {h : History Local} {s s' : State Local Shared} {label : Label}

theorem initial (p : Plan Local Shared) (latch : Latch) (shared : Shared) :
    Accounted p [] (p.initial latch shared) := by
  refine ⟨Nat.zero_le _, Nat.zero_le _, by simp [claimedUnits, Plan.initial], ?_, ?_⟩
  · intro unit
    simp [claimedUnits, endedUnits, Plan.initial]
  · by_cases hunits : p.units = 0 <;> simp [Plan.initial, hunits, Caller.Joined]

/-- A step of the caller that leaves the workers and the cursor alone. -/
theorem of_caller (hacc : Accounted p h s) {l : Latch} {caller : Caller}
    (hjoined : caller.Joined s.team) :
    Accounted p (h ++ []) { s with common := { s.common with latch := l }, caller := caller } := by
  refine ⟨hacc.team_le, hacc.cursor_le, ?_, ?_, hjoined⟩
  · simpa using hacc.claims
  · intro unit
    simpa using hacc.balance unit

theorem afterWait_joined (reply : Latch.Reply) (team : Array (Worker Local)) :
    (Caller.afterWait reply).Joined team := by
  cases reply with
  | released result =>
      cases result with
      | ok _ => exact fun i hi => absurd hi (Nat.not_lt_zero i)
      | error _ => trivial
  | panicked => trivial
  | _ => exact fun i hi => absurd hi (Nat.not_lt_zero i)

theorem caller_step (hacc : Accounted p h s) (hstep : CallerStep p s choice s.caller s') :
    Accounted p (h ++ []) s' := by
  have hjoined := hacc.joined
  generalize hcaller : s.caller = caller at hstep hjoined
  cases hstep with
  | spawn missing =>
      refine ⟨by simpa using Nat.succ_le_of_lt missing, ?_, ?_, ?_, ?_⟩
      · simpa [Worker.idle] using hacc.cursor_le
      · simpa using hacc.claims
      · intro unit
        simpa [Worker.busy] using hacc.balance unit
      · simp [hcaller, Caller.Joined]
  | begin _ => exact hacc.of_caller (l := s.common.latch) trivial
  | failStep _ _ | failReturn _ _ | waitStep _ _ => exact hacc.of_caller trivial
  | waitReturn reply _ => exact hacc.of_caller (afterWait_joined reply _)
  | cancel failure => exact hacc.of_caller fun i hi => absurd hi (Nat.not_lt_zero i)
  | join result next stopped =>
      refine hacc.of_caller (l := s.common.latch) fun i hi => ?_
      rcases Nat.lt_succ_iff_lt_or_eq.mp hi with hlt | rfl
      · exact hjoined i hlt
      · exact stopped
  | finish result next joined =>
      refine hacc.of_caller (l := s.common.latch) fun i hi => ?_
      have hnext : s.team.size ≤ next := by simpa using joined
      exact hjoined i (Nat.lt_of_lt_of_le hi hnext)
  | escape stopped =>
      refine hacc.of_caller (l := s.common.latch) fun i hi => ?_
      rw [Array.getElem?_eq_getElem hi, stopped _ (Array.getElem_mem hi)]

/-- A step of a worker, from what it does to the cursor and to the balance. -/
theorem of_worker (hacc : Accounted p h s) {i : Nat} (hworker : s.team[i]? = some worker)
    (hne : worker ≠ .stopped) {notices : History Local}
    (hcursor : c'.cursor.toNat ≤ p.units + (total Worker.idle s.team + Worker.idle worker'))
    (hclaims : List.range (min s.common.cursor.toNat p.units) ++ claimedUnits notices =
      List.range (min c'.cursor.toNat p.units))
    (hbalance : ∀ unit, (claimedUnits notices).count unit + Worker.busy unit worker =
      (endedUnits notices).count unit + Worker.busy unit worker') :
    Accounted p (h ++ notices)
      { s with common := c', team := s.team.setIfInBounds i worker' } := by
  have hidle : Worker.idle worker = 0 := by cases worker <;> first | rfl | exact absurd rfl hne
  refine ⟨by simpa using hacc.team_le, ?_, ?_, ?_, hacc.joined.set hworker hne⟩
  · have hset := total_set Worker.idle hworker worker'
    show c'.cursor.toNat ≤ p.units + total Worker.idle (s.team.setIfInBounds i worker')
    omega
  · rw [claimedUnits_append, hacc.claims, hclaims]
  · intro unit
    have hset := total_set (Worker.busy unit) hworker worker'
    have hold := hacc.balance unit
    have hnew := hbalance unit
    rw [claimedUnits_append, endedUnits_append, List.count_append, List.count_append]
    show _ = _ + total (Worker.busy unit) (s.team.setIfInBounds i worker')
    omega

/-- A step that does not touch the cursor. -/
theorem of_worker_idle (hacc : Accounted p h s) {i : Nat} (hworker : s.team[i]? = some worker)
    (hne : worker ≠ .stopped) {notices : History Local}
    (hcursor : c'.cursor = s.common.cursor) (hclaims : claimedUnits notices = [])
    (hbalance : ∀ unit, Worker.busy unit worker =
      (endedUnits notices).count unit + Worker.busy unit worker') :
    Accounted p (h ++ notices)
      { s with common := c', team := s.team.setIfInBounds i worker' } := by
  refine hacc.of_worker hworker hne ?_ (by rw [hclaims, hcursor, List.append_nil]) ?_
  · rw [hcursor]
    have hle := hacc.cursor_le
    omega
  · intro unit
    simpa [hclaims] using hbalance unit

/-- Taking a number from the cursor, as long as it does not wrap. -/
theorem cursor_succ {cursor : UInt64} {bound : Nat} (h : cursor.toNat < bound)
    (hbound : bound < 2 ^ 64) : (cursor + 1).toNat = cursor.toNat + 1 := by
  rw [UInt64.toNat_add]
  exact Nat.mod_eq_of_lt (Nat.lt_of_le_of_lt h hbound)

/-- As long as a worker goes on, the cursor is not at its end: the others leave room for it. -/
theorem cursor_lt (hacc : Accounted p h s) {i : Nat} (hworker : s.team[i]? = some worker)
    (hne : worker ≠ .stopped) : s.common.cursor.toNat < p.units + p.threads := by
  have hidle : Worker.idle worker = 0 := by cases worker <;> first | rfl | exact absurd rfl hne
  have hset := total_set Worker.idle hworker .stopped
  have hsize : total Worker.idle (s.team.setIfInBounds i .stopped) ≤ _ :=
    total_le_size fun w => by cases w <;> simp [Worker.idle]
  have hteam := hacc.team_le
  have hcursor := hacc.cursor_le
  simp only [Worker.idle, Array.size_setIfInBounds] at hset hsize
  omega

/-- The cursor never goes back. -/
theorem cursor_mono (hacc : Accounted p h s) (hfits : p.units + p.threads < 2 ^ 64)
    (hstep : Step p s label s') : s.common.cursor.toNat ≤ s'.common.cursor.toNat := by
  cases hstep with
  | tick _ | refuse _ _ _ | outside _ | bystander _ _ _ => exact Nat.le_refl _
  | caller hstep =>
      generalize s.caller = caller at hstep
      cases hstep <;> exact Nat.le_refl _
  | worker index here hstep =>
      have hlt := hacc.cursor_lt here hstep.ne_stopped
      cases hstep with
      | claim _ | exhaust _ =>
          have hsucc := cursor_succ hlt hfits
          show _ ≤ (s.common.cursor + 1).toNat
          omega
      | _ => exact Nat.le_refl _

theorem worker_step (hacc : Accounted p h s) (hfits : p.units + p.threads < 2 ^ 64) {i : Nat}
    (hworker : s.team[i]? = some worker)
    (hstep : WorkerStep p s.common me choice worker c' worker') :
    Accounted p (h ++ p.workerNotices s.common worker)
      { s with common := c', team := s.team.setIfInBounds i worker' } := by
  have hne := hstep.ne_stopped
  cases hstep with
  | halt _ | goOn _ => exact hacc.of_worker_idle hworker hne rfl rfl fun _ => rfl
  | claim some_left =>
      have hsucc := cursor_succ some_left (by omega)
      rw [workerNotices_claim some_left]
      refine hacc.of_worker hworker hne ?_ ?_ ?_
      · show (s.common.cursor + 1).toNat ≤ _
        omega
      · have hmin : min s.common.cursor.toNat p.units = s.common.cursor.toNat := by omega
        have hmin' : min (s.common.cursor + 1).toNat p.units = s.common.cursor.toNat + 1 := by
          omega
        show _ = List.range (min (s.common.cursor + 1).toNat p.units)
        rw [hmin, hmin', List.range_succ]
        rfl
      · intro unit
        simp [claimedUnits, endedUnits, Worker.busy, List.count_singleton]
  | exhaust none_left =>
      have hsucc := cursor_succ (hacc.cursor_lt hworker hne) hfits
      have hset := total_set Worker.idle hworker .stopped
      have hcursor := hacc.cursor_le
      simp only [Worker.idle] at hset
      rw [workerNotices_exhaust none_left]
      refine hacc.of_worker hworker hne ?_ ?_ (fun _ => rfl)
      · show (s.common.cursor + 1).toNat ≤ _
        simp only [Worker.idle]
        omega
      · have hmin : min s.common.cursor.toNat p.units =
            min (s.common.cursor + 1).toNat p.units := by omega
        show _ = List.range (min (s.common.cursor + 1).toNat p.units)
        rw [← hmin]
        exact List.append_nil _
  | succeed unit state outcome next _ | fail unit state outcome _ next _ =>
      rw [workerNotices_finish next]
      refine hacc.of_worker_idle hworker hne rfl rfl fun unit' => ?_
      simp [endedUnits, Worker.busy, List.count_singleton]
  | access unit state act next | call unit state call resume next | unblock unit state _ next _ =>
      refine hacc.of_worker_idle hworker hne rfl ?_ fun unit' => ?_ <;>
        simp [Plan.workerNotices, next, claimedUnits, endedUnits, Worker.busy]
  | callStep unit call resume _ _ | callReturn unit call reply resume _ =>
      refine hacc.of_worker_idle hworker hne rfl (by simp) fun unit' => ?_
      simp [Worker.busy]
  | failStep unit _ _ | failReturn unit reply _ =>
      refine hacc.of_worker_idle hworker hne rfl (by simp) fun unit' => ?_
      simp [Worker.busy]

/-- Every event keeps the books. -/
theorem step (hacc : Accounted p h s) (hfits : p.units + p.threads < 2 ^ 64)
    (hstep : Step p s label s') : Accounted p (h ++ p.notices s label) s' := by
  cases hstep with
  | tick nanoseconds | outside call | bystander index _ _ =>
      refine ⟨hacc.team_le, hacc.cursor_le, ?_, ?_, hacc.joined⟩
      · simpa [Plan.notices] using hacc.claims
      · intro unit
        simpa [Plan.notices] using hacc.balance unit
  | refuse text _ _ => exact hacc.of_caller (l := s.common.latch) trivial
  | caller hstep => exact hacc.caller_step hstep
  | worker index here hstep =>
      rw [Plan.notices_worker here]
      exact hacc.worker_step hfits here hstep

/-- No unit is claimed twice. -/
theorem count_le_one (hacc : Accounted p h s) (unit : Nat) : (claimedUnits h).count unit ≤ 1 := by
  rw [hacc.claims]
  exact List.nodup_iff_count.mp List.nodup_range unit

/-- A unit is in the hands of one worker at most. -/
theorem alone (hacc : Accounted p h s) {i j unit : Nat} (hworker : s.team[i]? = some worker)
    (hother : s.team[j]? = some worker') (hbusy : Worker.busy unit worker = 1)
    (hbusy' : Worker.busy unit worker' = 1) : i = j := by
  by_contra hne
  have hboth := add_le_total (f := Worker.busy unit) rfl hne hworker hother
  have hbalance := hacc.balance unit
  have hle := hacc.count_le_one unit
  omega

/-- A unit in the hands of a worker has been claimed and has not ended. -/
theorem of_busy (hacc : Accounted p h s) {i unit : Nat} (hworker : s.team[i]? = some worker)
    (hbusy : Worker.busy unit worker = 1) : unit ∈ claimedUnits h ∧ unit ∉ endedUnits h := by
  have htotal := le_total (Worker.busy unit) hworker
  have hbalance := hacc.balance unit
  have hle := hacc.count_le_one unit
  constructor
  · apply List.count_pos_iff.mp
    omega
  · apply List.count_eq_zero.mp
    omega

/-- A unit that has ended has been claimed. -/
theorem claimed_of_ended (hacc : Accounted p h s) {unit : Nat} (hended : unit ∈ endedUnits h) :
    unit ∈ claimedUnits h := by
  have hpos := List.count_pos_iff.mpr hended
  have hbalance := hacc.balance unit
  apply List.count_pos_iff.mp
  omega

/-- Once all workers have stopped, every claimed unit has ended. -/
theorem ended_of_stopped (hacc : Accounted p h s) (hstopped : ∀ worker ∈ s.team, worker = .stopped)
    {unit : Nat} (hclaimed : unit ∈ claimedUnits h) : unit ∈ endedUnits h := by
  have hnone : total (Worker.busy unit) s.team = 0 := total_of_stopped hstopped rfl
  have hpos := List.count_pos_iff.mpr hclaimed
  have hbalance := hacc.balance unit
  apply List.count_pos_iff.mp
  omega

/-- A caller that is gone has seen all workers stop. -/
theorem stopped_of_gone (hacc : Accounted p h s) (hgone : s.caller.Gone) :
    ∀ worker ∈ s.team, worker = .stopped := by
  have hjoined : ∀ i < s.team.size, s.team[i]? = some .stopped := by
    have hjoined := hacc.joined
    cases hcaller : s.caller with
    | returned _ | panicked => rwa [hcaller] at hjoined
    | _ =>
        rw [hcaller] at hgone
        exact hgone.elim
  intro worker hworker
  obtain ⟨i, hi, rfl⟩ := Array.mem_iff_getElem.mp hworker
  simpa [hi] using hjoined i hi

end Accounted

section Run

variable {around : Surroundings} {latch : Latch} {shared : Shared} {h : History Local}
  {s s' : State Local Shared} {label : Label}

theorem Plan.Run.accounted (hfits : p.units + p.threads < 2 ^ 64)
    (hrun : p.Run around (p.initial latch shared) h s) : Accounted p h s := by
  induction hrun with
  | start => exact Accounted.initial p latch shared
  | step label _ _ hnext ih => exact ih.step hfits (step_cases hnext)

/-- No worker is missing: once the caller has gone on to wait, all are there. -/
structure Staffed (p : Plan Local Shared) (s : State Local Shared) : Prop where
  hired : ∀ phase, s.caller ≠ .failing phase
  full : s.caller ≠ .starting → s.team.size = p.threads

theorem Caller.afterWait_ne_failing (reply : Latch.Reply) (phase : Latch.Phase) :
    Caller.afterWait reply ≠ .failing phase := by
  cases reply with
  | released result => cases result <;> exact nofun
  | _ => exact nofun

theorem Staffed.step (hstaffed : Staffed p s) (hacc : Accounted p h s)
    (hrefusals : ∀ text, ¬ around.refusals text) (hwithin : label.Within around)
    (hstep : Step p s label s') : Staffed p s' := by
  cases hstep with
  | tick _ | outside _ | bystander _ _ _ => exact ⟨hstaffed.hired, hstaffed.full⟩
  | refuse text _ _ => exact absurd hwithin (hrefusals text)
  | worker index here hstep => exact ⟨hstaffed.hired, by simpa using hstaffed.full⟩
  | caller hstep =>
      have hfull := hstaffed.full
      generalize hcaller : s.caller = caller at hstep hfull
      cases hstep with
      | spawn _ => exact ⟨hstaffed.hired, fun hstarted => absurd hcaller hstarted⟩
      | begin enough => exact ⟨nofun, fun _ => Nat.le_antisymm hacc.team_le enough⟩
      | failStep _ _ | failReturn _ _ => exact absurd hcaller (hstaffed.hired _)
      | waitReturn reply _ => exact ⟨Caller.afterWait_ne_failing reply, fun _ => hfull nofun⟩
      | waitStep _ _ | cancel _ | join _ _ _ | finish _ _ _ | escape _ =>
          exact ⟨nofun, fun _ => hfull nofun⟩

/-- Where the system starts every worker, none is missing. -/
theorem Plan.Run.staffed (hfits : p.units + p.threads < 2 ^ 64)
    (hrefusals : ∀ text, ¬ around.refusals text)
    (hrun : p.Run around (p.initial latch shared) h s) : Staffed p s := by
  induction hrun with
  | start =>
      by_cases hunits : p.units = 0
      · exact ⟨by simp [Plan.initial, hunits], by simp [Plan.initial, Plan.threads, hunits]⟩
      · exact ⟨by simp [Plan.initial, hunits], by simp [Plan.initial, hunits]⟩
  | step label before hwithin hnext ih =>
      exact ih.step (before.accounted hfits) hrefusals hwithin (step_cases hnext)

end Run

end Pool
end ApiSchema
