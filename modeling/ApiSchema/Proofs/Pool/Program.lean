import ApiSchema.Proofs.Pool.Signals
import ApiSchema.Proofs.Pool.Claims

/-!
The programs of the units, followed through the runs of a pool.

A job is a program for each unit. `Job.Visits` says where the program of a unit can come, whatever
it reads from the shared memory and whatever the latch answers, and how many signals it has sent by
then. In every run of a pool each unit stands where its own program can come.
-/

namespace ApiSchema
namespace Pool

variable {Local Shared : Type}

/-- Whether a call can be answered by a reply. -/
def Answers (call : Latch.Call) (reply : Latch.Reply) : Prop :=
  Latch.Phase.Serves call (.finished reply)

/-- Where a unit stands in its program. -/
inductive Position (Local : Type) where
  /-- Between two moves. -/
  | ready (state : Local)
  /-- Inside a call on the latch. -/
  | inside (call : Latch.Call) (resume : Latch.Reply → Local)

/-- How many signals a unit sends by coming to a position. -/
def Position.signals : Position Local → Nat
  | .inside (.signal _) _ => 1
  | _ => 0

/-- The positions that can follow a position of a program. The later one comes first. -/
inductive Job.Follows (job : Job Local Shared) : Position Local → Position Local → Prop
  | access {state : Local} {act : Shared → Local × Shared} (next : job.next state = .access act)
      (shared : Shared) : Follows job (.ready (act shared).1) (.ready state)
  | call {state : Local} {call : Latch.Call} {resume : Latch.Reply → Local}
      (next : job.next state = .call call resume) : Follows job (.inside call resume) (.ready state)
  | reply {call : Latch.Call} {reply : Latch.Reply} (answers : Answers call reply)
      (resume : Latch.Reply → Local) : Follows job (.ready (resume reply)) (.inside call resume)
  | unblock {state state' : Local} (next : job.next state = .untilCancelled state') :
      Follows job (.ready state') (.ready state)

/-- The positions that the program of a unit can reach, with the signals sent on the way. -/
inductive Job.Visits (job : Job Local Shared) (unit : Nat) : Nat → Position Local → Prop
  | start : Visits job unit 0 (.ready (job.start unit))
  | follow {signals : Nat} {earlier later : Position Local}
      (before : Visits job unit signals earlier) (follows : job.Follows later earlier) :
      Visits job unit (signals + later.signals) later

/-- The unit that a worker has in its hands, and where it stands. -/
def Worker.position? : Worker Local → Option (Nat × Position Local)
  | .running unit state => some (unit, .ready state)
  | .calling unit call _ resume => some (unit, .inside call resume)
  | _ => none

/-- What a step of a worker means for the unit in its hands, with what the history notes of it. -/
inductive UnitStep (job : Job Local Shared) :
    History Local → Option (Nat × Position Local) → Option (Nat × Position Local) → Prop
  | stay {notices : History Local} (position : Option (Nat × Position Local))
      (unclaimed : claimedUnits notices = []) (unended : endedUnits notices = [])
      (unsent : ∀ test, sent test notices = 0) : UnitStep job notices position position
  | claim (unit : Nat) :
      UnitStep job [.claimed unit] none (some (unit, .ready (job.start unit)))
  | follow {notices : History Local} (unit : Nat) {earlier later : Position Local}
      (follows : job.Follows later earlier) (unclaimed : claimedUnits notices = [])
      (unended : endedUnits notices = [])
      (sends : ∀ unit', sent (ofUnit unit') notices = if unit' = unit then later.signals else 0) :
      UnitStep job notices (some (unit, earlier)) (some (unit, later))
  | finish (unit : Nat) {state : Local} {outcome : Outcome}
      (next : job.next state = .finish outcome) :
      UnitStep job [.ended unit outcome] (some (unit, .ready state)) none

variable {p : Plan Local Shared} {c c' : Common Shared} {me : Thread} {choice : Latch.Choice}
  {worker worker' : Worker Local} {h : History Local} {s s' : State Local Shared}
  {label : Label}

theorem WorkerStep.unitStep (hserves : worker.Serves)
    (hstep : WorkerStep p c me choice worker c' worker') :
    UnitStep p.job (p.workerNotices c worker) worker.position? worker'.position? := by
  cases hstep with
  | halt _ | goOn _ => exact UnitStep.stay none rfl rfl fun _ => rfl
  | claim some_left =>
      rw [workerNotices_claim some_left]
      exact UnitStep.claim _
  | exhaust none_left =>
      rw [workerNotices_exhaust none_left]
      exact UnitStep.stay none rfl rfl fun _ => rfl
  | succeed unit state outcome next _ | fail unit state outcome failure next _ =>
      rw [workerNotices_finish next]
      exact UnitStep.finish unit next
  | access unit state act next =>
      rw [workerNotices_access next]
      refine UnitStep.follow unit (.access next c.shared) rfl rfl fun unit' => ?_
      simp [sent, Position.signals]
  | unblock unit state state' next _ =>
      rw [workerNotices_unblock next]
      refine UnitStep.follow unit (.unblock next) rfl rfl fun unit' => ?_
      simp [Position.signals]
  | call unit state call resume next =>
      rw [workerNotices_call next]
      refine UnitStep.follow unit (.call next) rfl rfl fun unit' => ?_
      by_cases hunit : unit' = unit <;> cases call <;>
        simp [sent, Position.signals, ofUnit, hunit, Ne.symm]
  | callStep unit call resume _ _ =>
      exact UnitStep.stay _ (claimedUnits_calling _ _ _ _) (endedUnits_calling _ _ _ _)
        fun test => sent_calling p c test unit call _ resume
  | callReturn unit call reply resume advance =>
      have hanswers : Answers call reply := advance.serves hserves
      refine UnitStep.follow unit (.reply hanswers resume) (claimedUnits_calling _ _ _ _)
        (endedUnits_calling _ _ _ _) fun unit' => ?_
      simp [Position.signals]
  | failStep unit _ _ | failReturn unit _ _ =>
      exact UnitStep.stay none (claimedUnits_failing _ _) (endedUnits_failing _ _)
        fun test => sent_failing p c test unit _

theorem busy_of_position {unit : Nat} {position : Position Local}
    (hposition : worker.position? = some (unit, position)) : Worker.busy unit worker = 1 := by
  cases worker <;> cases hposition <;> simp [Worker.busy]

theorem position_of_busy {unit : Nat} (hbusy : 0 < Worker.busy unit worker) :
    ∃ position, worker.position? = some (unit, position) := by
  cases worker with
  | running unit' state | calling unit' call phase resume =>
      by_cases hunit : unit' = unit
      · subst hunit
        exact ⟨_, rfl⟩
      · simp [Worker.busy, hunit] at hbusy
  | _ => simp [Worker.busy] at hbusy

/-- Every unit stands where its program can come, having sent what the history says. -/
structure Followed (p : Plan Local Shared) (h : History Local) (s : State Local Shared) :
    Prop where
  unclaimed : ∀ unit, unit ∉ claimedUnits h → sent (ofUnit unit) h = 0
  standing : ∀ (i : Nat) (worker : Worker Local), s.team[i]? = some worker → ∀ unit position,
    worker.position? = some (unit, position) →
      p.job.Visits unit (sent (ofUnit unit) h) position
  ended : ∀ unit outcome, Notice.ended unit outcome ∈ h → ∃ state,
    p.job.Visits unit (sent (ofUnit unit) h) (.ready state) ∧ p.job.next state = .finish outcome

namespace Followed

theorem not_mem_of_unended {notices : History Local} (hunended : endedUnits notices = [])
    (unit : Nat) (outcome : Outcome) : Notice.ended unit outcome ∉ notices := by
  intro hmem
  have hended : unit ∈ endedUnits notices := mem_endedUnits.mpr ⟨outcome, hmem⟩
  rw [hunended] at hended
  cases hended

/-- A step in which no signal is sent. -/
theorem of_unsent (hfollowed : Followed p h s) {notices : History Local}
    (hunsent : ∀ unit, sent (ofUnit unit) notices = 0)
    (hstanding : ∀ (i : Nat) (worker : Worker Local), s'.team[i]? = some worker →
      ∀ unit position, worker.position? = some (unit, position) →
        p.job.Visits unit (sent (ofUnit unit) h) position)
    (hended : ∀ unit outcome, Notice.ended unit outcome ∈ notices → ∃ state,
      p.job.Visits unit (sent (ofUnit unit) h) (.ready state) ∧
        p.job.next state = .finish outcome) : Followed p (h ++ notices) s' := by
  refine ⟨?_, ?_, ?_⟩
  · intro unit hunit
    rw [claimedUnits_append, List.mem_append, not_or] at hunit
    rw [sent_append, hunsent, hfollowed.unclaimed unit hunit.1]
  · intro i worker hworker unit position hposition
    rw [sent_append, hunsent, Nat.add_zero]
    exact hstanding i worker hworker unit position hposition
  · intro unit outcome hmem
    rw [sent_append, hunsent, Nat.add_zero]
    rcases List.mem_append.mp hmem with hbefore | hnow
    · exact hfollowed.ended unit outcome hbefore
    · exact hended unit outcome hnow

/-- A worker that moves its unit on. Nobody else has the unit, and it has not ended, so only its own
worker sees it move. -/
theorem of_follow (hfollowed : Followed p h s) (hacc : Accounted p h s) {i : Nat}
    (here : s.team[i]? = some worker) {notices : History Local} {unit : Nat}
    {earlier later : Position Local} (hold : worker.position? = some (unit, earlier))
    (hnew : worker'.position? = some (unit, later)) (hfollows : p.job.Follows later earlier)
    (hunclaimed : claimedUnits notices = []) (hunended : endedUnits notices = [])
    (hsends : ∀ unit', sent (ofUnit unit') notices = if unit' = unit then later.signals else 0) :
    Followed p (h ++ notices)
      { s with common := c', team := s.team.setIfInBounds i worker' } := by
  have hhere := hfollowed.standing i worker here unit _ hold
  have hbusy := busy_of_position hold
  obtain ⟨hclaimed, hopen⟩ := hacc.of_busy here hbusy
  have hother : ∀ unit', unit' ≠ unit →
      sent (ofUnit unit') (h ++ notices) = sent (ofUnit unit') h := by
    intro unit' hne
    rw [sent_append, hsends, if_neg hne, Nat.add_zero]
  refine ⟨?_, ?_, ?_⟩
  · intro unit' hunit'
    rw [claimedUnits_append, hunclaimed, List.append_nil] at hunit'
    have hne : unit' ≠ unit := fun heq => hunit' (heq ▸ hclaimed)
    rw [hother unit' hne, hfollowed.unclaimed unit' hunit']
  · intro j other hworker unit' position hposition
    rcases worker_cases hworker with ⟨rfl, rfl⟩ | ⟨hj, hworker⟩
    · rw [hnew] at hposition
      cases hposition
      rw [sent_append, hsends, if_pos rfl]
      exact hhere.follow hfollows
    · have hne : unit' ≠ unit := by
        rintro rfl
        exact hj (hacc.alone hworker here (busy_of_position hposition) hbusy)
      rw [hother unit' hne]
      exact hfollowed.standing j other hworker unit' position hposition
  · intro unit' outcome hended
    rcases List.mem_append.mp hended with hbefore | hnow
    · have hne : unit' ≠ unit := by
        rintro rfl
        exact hopen (mem_endedUnits.mpr ⟨outcome, hbefore⟩)
      rw [hother unit' hne]
      exact hfollowed.ended unit' outcome hbefore
    · exact absurd hnow (not_mem_of_unended hunended unit' outcome)

theorem worker_step (hfollowed : Followed p h s) (hacc : Accounted p h s) {i : Nat}
    (here : s.team[i]? = some worker) {notices : History Local}
    (hfresh : ∀ unit ∈ claimedUnits notices, unit ∉ claimedUnits h)
    (hunit : UnitStep p.job notices worker.position? worker'.position?) :
    Followed p (h ++ notices)
      { s with common := c', team := s.team.setIfInBounds i worker' } := by
  generalize hold : worker.position? = old at hunit
  generalize hnew : worker'.position? = new at hunit
  cases hunit with
  | stay _ unclaimed unended unsent =>
      refine hfollowed.of_unsent (fun unit => unsent _) ?_ ?_
      · intro j other hother unit position hposition
        rcases worker_cases hother with ⟨rfl, rfl⟩ | ⟨_, hother⟩
        · rw [hnew] at hposition
          exact hfollowed.standing j worker here unit position (hold.trans hposition)
        · exact hfollowed.standing j other hother unit position hposition
      · intro unit outcome hended
        exact absurd hended (not_mem_of_unended unended unit outcome)
  | claim unit =>
      refine hfollowed.of_unsent (fun unit => rfl) ?_ (by simp)
      intro j other hother unit' position hposition
      rcases worker_cases hother with ⟨rfl, rfl⟩ | ⟨_, hother⟩
      · rw [hnew] at hposition
        cases hposition
        rw [hfollowed.unclaimed unit (hfresh unit (by simp [claimedUnits]))]
        exact Job.Visits.start
      · exact hfollowed.standing j other hother unit' position hposition
  | finish unit next =>
      have hhere := hfollowed.standing i worker here unit _ hold
      refine hfollowed.of_unsent (fun unit => rfl) ?_ ?_
      · intro j other hother unit' position hposition
        rcases worker_cases hother with ⟨rfl, rfl⟩ | ⟨_, hother⟩
        · rw [hnew] at hposition
          cases hposition
        · exact hfollowed.standing j other hother unit' position hposition
      · intro unit' outcome' hended
        cases List.mem_singleton.mp hended
        exact ⟨_, hhere, next⟩
  | follow unit follows unclaimed unended sends =>
      exact hfollowed.of_follow hacc here hold hnew follows unclaimed unended sends

/-- An event in which no worker has a part. -/
theorem of_team (hfollowed : Followed p h s)
    (hteam : ∀ (i : Nat) (worker : Worker Local), s'.team[i]? = some worker →
      s.team[i]? = some worker ∨ worker.position? = none) : Followed p (h ++ []) s' := by
  refine hfollowed.of_unsent (fun unit => rfl) ?_ (by simp)
  intro i worker hworker unit position hposition
  rcases hteam i worker hworker with hold | hnone
  · exact hfollowed.standing i worker hold unit position hposition
  · rw [hnone] at hposition
    cases hposition

theorem step {around : Surroundings} (hfollowed : Followed p h s) (hacc : Accounted p h s)
    (hacc' : Accounted p (h ++ p.notices s label) s') (hserving : Serving p around s)
    (hstep : Step p s label s') : Followed p (h ++ p.notices s label) s' := by
  cases hstep with
  | tick _ | refuse _ _ _ | outside _ | bystander _ _ _ =>
      exact hfollowed.of_team fun _ _ hworker => Or.inl hworker
  | caller hstep =>
      refine hfollowed.of_team fun i worker hworker => ?_
      generalize s.caller = caller at hstep
      cases hstep with
      | spawn _ =>
          rw [Array.getElem?_push] at hworker
          split at hworker
          · cases hworker
            exact Or.inr rfl
          · exact Or.inl hworker
      | _ => exact Or.inl hworker
  | worker index here hstep =>
      rw [Plan.notices_worker here] at hacc' ⊢
      refine hfollowed.worker_step hacc here ?_
        (hstep.unitStep (hserving.workers _ (Array.mem_of_getElem? here)))
      intro unit hnow hbefore
      have hcount := hacc'.count_le_one unit
      rw [claimedUnits_append, List.count_append] at hcount
      have hfirst := List.count_pos_iff.mpr hbefore
      have hagain := List.count_pos_iff.mpr hnow
      omega

end Followed

theorem Plan.Run.followed {around : Surroundings} {latch : Latch} {shared : Shared}
    (hfits : p.units + p.threads < 2 ^ 64)
    (hrun : p.Run around (p.initial latch shared) h s) : Followed p h s := by
  induction hrun with
  | start => exact ⟨fun _ _ => rfl, by simp [Plan.initial], by simp⟩
  | step label before within next ih =>
      have hstep := step_cases next
      exact ih.step (before.accounted hfits) ((before.accounted hfits).step hfits hstep)
        before.serving hstep

/-- A job whose units make permitted calls only. -/
def Job.CallsOnly (job : Job Local Shared) (units : Nat) (permitted : Latch.Call → Prop) : Prop :=
  ∀ unit < units, ∀ signals call resume,
    job.Visits unit signals (.inside call resume) → permitted call

/-- A job whose units succeed after one signal each or fail without any, and leave the recording of
failures to their workers. -/
structure Job.SignalsOnce (job : Job Local Shared) (units : Nat) : Prop where
  once : ∀ unit < units, ∀ signals position, job.Visits unit signals position → signals ≤ 1
  success : ∀ unit < units, ∀ signals state outcome, job.Visits unit signals (.ready state) →
    job.next state = .finish outcome → outcome.failure? = none → signals = 1
  failure : ∀ unit < units, ∀ signals state outcome failure,
    job.Visits unit signals (.ready state) → job.next state = .finish outcome →
      outcome.failure? = some failure → signals = 0
  calls : job.CallsOnly units fun call => ∀ failure, call ≠ .fail failure

/-- A call that is over once the lock is to be had, and neither fails nor cancels. -/
def Prompt : Latch.Call → Prop
  | .signal _ | .isCancelled | .arrived => True
  | .fail _ | .cancel | .wait _ => False

/-- A call that cannot raise the flag: it neither fails nor cancels, and has no limit to reach. -/
def Harmless : Latch.Call → Prop
  | .fail _ | .cancel | .wait (some _) => False
  | _ => True

theorem Prompt.harmless {call : Latch.Call} (hprompt : Prompt call) : Harmless call := by
  cases call <;> first | exact hprompt.elim | trivial

/-- A job whose units block nowhere but at the lock of the latch. -/
structure Job.Unblocked (job : Job Local Shared) (units : Nat) : Prop where
  calls : job.CallsOnly units Prompt
  moves : ∀ unit < units, ∀ signals state, job.Visits unit signals (.ready state) →
    ∀ state', job.next state ≠ .untilCancelled state'

/-- The program of every unit ends, whatever it reads and is answered. -/
def Job.Terminates (job : Job Local Shared) (units : Nat) : Prop :=
  ∀ unit < units, Acc job.Follows (.ready (job.start unit))

theorem Accounted.lt_units (hacc : Accounted p h s) {unit : Nat}
    (hclaimed : unit ∈ claimedUnits h) : unit < p.units := by
  rw [hacc.claims, List.mem_range] at hclaimed
  omega

/-- The calls of the units are permitted. -/
theorem Followed.permitted (hfollowed : Followed p h s) (hacc : Accounted p h s)
    {permitted : Latch.Call → Prop} (hjob : p.job.CallsOnly p.units permitted) {i unit : Nat}
    {call : Latch.Call} {phase : Latch.Phase} {resume : Latch.Reply → Local}
    (hworker : s.team[i]? = some (.calling unit call phase resume)) : permitted call := by
  have hposition : (Worker.calling unit call phase resume).position? =
      some (unit, .inside call resume) := rfl
  have hclaimed := (hacc.of_busy hworker (busy_of_position hposition)).1
  exact hjob unit (hacc.lt_units hclaimed) _ call resume
    (hfollowed.standing i _ hworker unit _ hposition)

end Pool
end ApiSchema
