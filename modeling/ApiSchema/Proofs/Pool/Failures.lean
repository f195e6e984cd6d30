import ApiSchema.Proofs.Pool.Order
import ApiSchema.Proofs.Pool.Program

/-!
No failure is lost, and the latch keeps the one that was recorded first.

Every unit that fails is reported to the latch by its worker. The history notes when a worker takes
the lock for that; the failure that the latch keeps is that of the first worker to do so, as long as
nobody else records failures.
-/

namespace ApiSchema
namespace Pool

variable {Local Shared : Type}

/-- The units whose workers took the lock to record how they failed, in that order. -/
def failures (h : History Local) : List (Nat × Failure) :=
  h.filterMap fun
    | .failed unit failure => some (unit, failure)
    | _ => none

@[simp] theorem failures_append (h h' : History Local) :
    failures (h ++ h') = failures h ++ failures h' :=
  List.filterMap_append

variable {p : Plan Local Shared} {c c' : Common Shared} {me : Thread} {choice : Latch.Choice}
  {worker worker' : Worker Local} {h : History Local} {s s' : State Local Shared}
  {label : Label} {around : Surroundings}

/-- What a step of a worker means for the reports of failures, with what the history notes of it. -/
inductive ReportStep : History Local → Worker Local → Worker Local → Prop
  | other {notices : History Local} {worker worker' : Worker Local}
      (before : ∀ unit phase, worker ≠ .failing unit phase)
      (after : ∀ unit phase, worker' ≠ .failing unit phase)
      (ended : ∀ unit outcome, Notice.ended unit outcome ∈ notices → outcome.failure? = none)
      (unfailed : failures notices = []) : ReportStep notices worker worker'
  | fail (unit : Nat) (state : Local) {outcome : Outcome} {failure : Failure}
      (failed : outcome.failure? = some failure) :
      ReportStep [.ended unit outcome] (.running unit state)
        (.failing unit (.entering (.fail failure)))
  | lock (unit : Nat) (failure : Failure) :
      ReportStep [.failed unit failure] (.failing unit (.entering (.fail failure)))
        (.failing unit (.recording failure))
  | go (unit : Nat) {phase phase' : Latch.Phase}
      (entered : ∀ call, phase ≠ .entering call) (entered' : ∀ call, phase' ≠ .entering call)
      (recorded : ∀ failure, phase' ≠ .recording failure) :
      ReportStep [] (.failing unit phase) (.failing unit phase')
  | stop (unit : Nat) {phase : Latch.Phase} (entered : ∀ call, phase ≠ .entering call)
      (recorded : ∀ failure, phase ≠ .recording failure) :
      ReportStep [] (.failing unit phase) .stopped

@[simp] theorem failures_calling (p : Plan Local Shared) (c : Common Shared) (unit : Nat)
    (call : Latch.Call) (phase : Latch.Phase) (resume : Latch.Reply → Local) :
    failures (p.workerNotices c (.calling unit call phase resume)) = [] := by
  cases phase <;> rfl

theorem ReportStep.calling (p : Plan Local Shared) (c : Common Shared) (unit : Nat)
    (call : Latch.Call) (phase : Latch.Phase) (resume : Latch.Reply → Local)
    (hafter : ∀ unit phase, worker' ≠ .failing unit phase) :
    ReportStep (p.workerNotices c (.calling unit call phase resume))
      (.calling unit call phase resume) worker' := by
  refine ReportStep.other nofun hafter ?_ (failures_calling p c unit call phase resume)
  intro unit' outcome hended
  exact absurd hended (Followed.not_mem_of_unended (endedUnits_calling _ _ _ _) _ _)

/-- A step inside the call that reports a failure. -/
theorem ReportStep.failing (p : Plan Local Shared) (c : Common Shared) (unit : Nat)
    {failure : Failure} {l l' : Latch} {now : Nat} {phase phase' : Latch.Phase}
    (hserves : phase.Serves (.fail failure))
    (hadvance : Latch.Advance l me now choice phase l' phase') :
    ReportStep (p.workerNotices c (.failing unit phase)) (.failing unit phase)
      (.failing unit phase') := by
  cases hadvance with
  | lock free locked =>
      cases phase with
      | entering call =>
          cases hserves
          cases locked
          exact ReportStep.lock unit failure
      | locking _ | waking _ _ => exact hserves.elim
      | _ => cases locked
  | cancel | peek | pass _ _ | overflow _ _ _ | await _ _ _ => cases hserves
  | countLast _ _ | count _ _ | read | refuse _ _ _ | allow _ _ _ | park _ _ _ | expire _ _ _ _
  | retry _ _ _ | giveUp _ _ | wake _ _ | stir _ _ | alarm _ _ _ _ _ => exact hserves.elim
  | record _ | flag | notify | release _ => exact ReportStep.go unit nofun nofun nofun

/-- The call that reports a failure returns once it has given up the lock. -/
theorem ReportStep.returning (p : Plan Local Shared) (c : Common Shared) (unit : Nat)
    {failure : Failure} {l l' : Latch} {now : Nat} {phase : Latch.Phase} {reply : Latch.Reply}
    (hserves : phase.Serves (.fail failure))
    (hadvance : Latch.Advance l me now choice phase l' (.finished reply)) :
    ReportStep (p.workerNotices c (.failing unit phase)) (.failing unit phase) .stopped := by
  cases hadvance with
  | lock free locked => exact absurd locked (phase.locked?_ne_finished _)
  | cancel | peek | pass _ _ | overflow _ _ _ => cases hserves
  | release _ => exact ReportStep.stop unit nofun nofun

theorem WorkerStep.reportStep (hserves : worker.Serves)
    (hstep : WorkerStep p c me choice worker c' worker') :
    ReportStep (p.workerNotices c worker) worker worker' := by
  cases hstep with
  | halt _ | goOn _ => exact ReportStep.other (by simp) (by simp) (by simp [Plan.workerNotices]) rfl
  | claim some_left =>
      rw [workerNotices_claim some_left]
      exact ReportStep.other (by simp) (by simp) (by simp) rfl
  | exhaust none_left =>
      rw [workerNotices_exhaust none_left]
      exact ReportStep.other (by simp) (by simp) (by simp) rfl
  | succeed unit state outcome next success =>
      rw [workerNotices_finish next]
      refine ReportStep.other (by simp) (by simp) ?_ rfl
      intro unit' outcome' hended
      cases List.mem_singleton.mp hended
      exact success
  | fail unit state outcome failure next failed =>
      rw [workerNotices_finish next]
      exact ReportStep.fail unit state failed
  | access unit state act next =>
      rw [workerNotices_access next]
      exact ReportStep.other (by simp) (by simp) (by simp) rfl
  | call unit state call resume next =>
      rw [workerNotices_call next]
      exact ReportStep.other (by simp) (by simp) (by simp) rfl
  | unblock unit state state' next _ =>
      rw [workerNotices_unblock next]
      exact ReportStep.other (by simp) (by simp) (by simp) rfl
  | callStep unit call resume _ _ => exact ReportStep.calling p c unit call _ resume (by simp)
  | callReturn unit call reply resume _ => exact ReportStep.calling p c unit call _ resume (by simp)
  | failStep unit advance _ =>
      obtain ⟨failure, hserves⟩ := hserves
      exact ReportStep.failing p c unit hserves advance
  | failReturn unit reply advance =>
      obtain ⟨failure, hserves⟩ := hserves
      exact ReportStep.returning p c unit hserves advance

/-- A unit has ended with a failure. -/
def FailedAs (h : History Local) (unit : Nat) (failure : Failure) : Prop :=
  ∃ outcome, Notice.ended unit outcome ∈ h ∧ outcome.failure? = some failure

theorem FailedAs.append {unit : Nat} {failure : Failure} (hfailed : FailedAs h unit failure)
    (notices : History Local) : FailedAs (h ++ notices) unit failure := by
  obtain ⟨outcome, hmem, hfailure⟩ := hfailed
  exact ⟨outcome, List.mem_append_left _ hmem, hfailure⟩

/-- Every unit that has failed is reported, and nothing else is. -/
structure Reported (h : History Local) (s : State Local Shared) : Prop where
  /-- A worker that records a failure does so for a unit that failed in that way. -/
  failing : ∀ (i unit : Nat) (phase : Latch.Phase), s.team[i]? = some (.failing unit phase) →
    ∀ failure, phase = .entering (.fail failure) ∨ phase = .recording failure →
      FailedAs h unit failure
  /-- A worker that has come to record a failure has taken the lock for it. -/
  recording : ∀ (i unit : Nat) (failure : Failure),
    s.team[i]? = some (.failing unit (.recording failure)) → (unit, failure) ∈ failures h
  /-- Whoever took the lock to record a failure did so for a unit that failed in that way. -/
  failed : ∀ unit failure, (unit, failure) ∈ failures h → FailedAs h unit failure
  /-- A unit that failed has been reported or is about to be. -/
  ended : ∀ unit failure, FailedAs h unit failure → (unit, failure) ∈ failures h ∨
    ∃ i : Nat, s.team[i]? = some (.failing unit (.entering (.fail failure)))

namespace Reported

/-- After a step of a worker, a unit that had failed is reported, or about to be reported by another
worker, unless it was this worker that was about to report it. -/
theorem ended_step (hreported : Reported h s) {i : Nat} (here : s.team[i]? = some worker)
    (worker' : Worker Local) {unit : Nat} {failure : Failure} (hfailed : FailedAs h unit failure) :
    (unit, failure) ∈ failures h ∨ worker = .failing unit (.entering (.fail failure)) ∨
      ∃ j : Nat, (s.team.setIfInBounds i worker')[j]? =
        some (.failing unit (.entering (.fail failure))) := by
  rcases hreported.ended unit failure hfailed with hdone | ⟨j, hj⟩
  · exact Or.inl hdone
  · by_cases hji : i = j
    · subst hji
      rw [here] at hj
      exact Or.inr (Or.inl (Option.some.inj hj))
    · exact Or.inr (Or.inr ⟨j, (Array.getElem?_setIfInBounds_ne hji).trans hj⟩)

/-- A step of a worker that takes part in no report, or leaves one that has been made. -/
theorem of_other (hreported : Reported h s) {i : Nat} (here : s.team[i]? = some worker)
    {notices : History Local} (hworker : ∀ unit failure,
      worker ≠ .failing unit (.entering (.fail failure)))
    (hworker' : ∀ unit phase, worker' = .failing unit phase →
      ∀ failure, phase ≠ .entering (.fail failure) ∧ phase ≠ .recording failure)
    (hended : ∀ unit outcome, Notice.ended unit outcome ∈ notices → outcome.failure? = none)
    (hunfailed : failures notices = []) :
    Reported (h ++ notices) { s with common := c', team := s.team.setIfInBounds i worker' } := by
  have hfailures : failures (h ++ notices) = failures h := by simp [hunfailed]
  refine ⟨?_, ?_, ?_, ?_⟩
  · intro j unit phase hother failure hphase
    rcases worker_cases hother with ⟨_, heq⟩ | ⟨_, hother⟩
    · obtain ⟨hentering, hrecording⟩ := hworker' unit phase heq.symm failure
      exact absurd hphase (not_or.mpr ⟨hentering, hrecording⟩)
    · exact (hreported.failing j unit phase hother failure hphase).append notices
  · intro j unit failure hother
    rw [hfailures]
    rcases worker_cases hother with ⟨_, heq⟩ | ⟨_, hother⟩
    · exact absurd rfl (hworker' unit _ heq.symm failure).2
    · exact hreported.recording j unit failure hother
  · intro unit failure hmem
    rw [hfailures] at hmem
    exact (hreported.failed unit failure hmem).append notices
  · rintro unit failure ⟨outcome, hmem, hfailure⟩
    rw [hfailures]
    rcases List.mem_append.mp hmem with hbefore | hnow
    · rcases hreported.ended_step here worker' ⟨outcome, hbefore, hfailure⟩ with
        hdone | hme | hother
      · exact Or.inl hdone
      · exact absurd hme (hworker unit failure)
      · exact Or.inr hother
    · rw [hended unit outcome hnow] at hfailure
      cases hfailure

/-- A worker whose unit has failed is about to report that. -/
theorem of_fail (hreported : Reported h s) {i unit : Nat} {state : Local} {outcome : Outcome}
    {failure : Failure} (here : s.team[i]? = some (.running unit state))
    (hfailed : outcome.failure? = some failure) :
    Reported (h ++ [.ended unit outcome])
      { s with
        common := c'
        team := s.team.setIfInBounds i (.failing unit (.entering (.fail failure))) } := by
  have hlt : i < s.team.size := (Array.getElem?_eq_some_iff.mp here).1
  have hfailures : failures (h ++ [Notice.ended unit outcome]) = failures h := by simp [failures]
  refine ⟨?_, ?_, ?_, ?_⟩
  · intro j unit' phase hother failure' hphase
    rcases worker_cases hother with ⟨_, heq⟩ | ⟨_, hother⟩
    · cases heq
      have hfailure : failure' = failure := by simpa [eq_comm] using hphase
      exact ⟨outcome, by simp, hfailure ▸ hfailed⟩
    · exact (hreported.failing j unit' phase hother failure' hphase).append _
  · intro j unit' failure' hother
    rw [hfailures]
    rcases worker_cases hother with ⟨_, heq⟩ | ⟨_, hother⟩
    · cases heq
    · exact hreported.recording j unit' failure' hother
  · intro unit' failure' hmem
    rw [hfailures] at hmem
    exact (hreported.failed unit' failure' hmem).append _
  · rintro unit' failure' ⟨outcome', hmem, hfailure⟩
    rw [hfailures]
    rcases List.mem_append.mp hmem with hbefore | hnow
    · rcases hreported.ended_step here (.failing unit (.entering (.fail failure)))
        ⟨outcome', hbefore, hfailure⟩ with hdone | hme | hother
      · exact Or.inl hdone
      · cases hme
      · exact Or.inr hother
    · cases List.mem_singleton.mp hnow
      obtain rfl : failure = failure' := Option.some.inj (hfailed.symm.trans hfailure)
      exact Or.inr ⟨i, by simp [hlt]⟩

/-- A worker that takes the lock to report a failure has reported it. -/
theorem of_lock (hreported : Reported h s) {i unit : Nat} {failure : Failure}
    (here : s.team[i]? = some (.failing unit (.entering (.fail failure)))) :
    Reported (h ++ [.failed unit failure])
      { s with
        common := c'
        team := s.team.setIfInBounds i (.failing unit (.recording failure)) } := by
  have hcause := hreported.failing i unit _ here failure (Or.inl rfl)
  have hfailures : failures (h ++ [Notice.failed unit failure]) =
      failures h ++ [(unit, failure)] := by simp [failures]
  refine ⟨?_, ?_, ?_, ?_⟩
  · intro j unit' phase hother failure' hphase
    rcases worker_cases hother with ⟨_, heq⟩ | ⟨_, hother⟩
    · cases heq
      obtain rfl : failure = failure' := by simpa using hphase
      exact hcause.append _
    · exact (hreported.failing j unit' phase hother failure' hphase).append _
  · intro j unit' failure' hother
    rw [hfailures]
    rcases worker_cases hother with ⟨_, heq⟩ | ⟨_, hother⟩
    · cases heq
      simp
    · exact List.mem_append_left _ (hreported.recording j unit' failure' hother)
  · intro unit' failure' hmem
    rw [hfailures, List.mem_append, List.mem_singleton] at hmem
    rcases hmem with hbefore | hnow
    · exact (hreported.failed unit' failure' hbefore).append _
    · cases hnow
      exact hcause.append _
  · rintro unit' failure' ⟨outcome, hmem, hfailure⟩
    rw [hfailures]
    have hbefore : Notice.ended unit' outcome ∈ h := by simpa using hmem
    rcases hreported.ended_step here (.failing unit (.recording failure))
      ⟨outcome, hbefore, hfailure⟩ with hdone | hme | hother
    · exact Or.inl (List.mem_append_left _ hdone)
    · cases hme
      exact Or.inl (by simp)
    · exact Or.inr hother

theorem worker_step (hreported : Reported h s) {i : Nat} (here : s.team[i]? = some worker)
    {notices : History Local} (hstep : ReportStep notices worker worker') :
    Reported (h ++ notices) { s with common := c', team := s.team.setIfInBounds i worker' } := by
  cases hstep with
  | other before after ended unfailed =>
      exact hreported.of_other here (fun unit failure => before unit _)
        (fun unit phase heq => absurd heq (after unit phase)) ended unfailed
  | go unit entered entered' recorded =>
      refine hreported.of_other here ?_ ?_ nofun rfl
      · intro unit' failure heq
        cases heq
        exact entered _ rfl
      · intro unit' phase heq failure
        cases heq
        exact ⟨entered' _, recorded failure⟩
  | stop unit entered _ =>
      refine hreported.of_other here ?_ nofun nofun rfl
      intro unit' failure heq
      cases heq
      exact entered _ rfl
  | fail unit state failed => exact hreported.of_fail here failed
  | lock unit failure => exact hreported.of_lock here

/-- An event in which no worker has a part. -/
theorem of_team (hreported : Reported h s)
    (hkept : ∀ (i : Nat) worker, s.team[i]? = some worker → s'.team[i]? = some worker)
    (hnew : ∀ (i unit : Nat) (phase : Latch.Phase), s'.team[i]? = some (.failing unit phase) →
      s.team[i]? = some (.failing unit phase)) : Reported (h ++ []) s' := by
  rw [List.append_nil]
  refine ⟨?_, ?_, hreported.failed, ?_⟩
  · intro i unit phase hworker
    exact hreported.failing i unit phase (hnew i unit phase hworker)
  · intro i unit failure hworker
    exact hreported.recording i unit failure (hnew i unit _ hworker)
  · intro unit failure hfailed
    rcases hreported.ended unit failure hfailed with hdone | ⟨i, hi⟩
    · exact Or.inl hdone
    · exact Or.inr ⟨i, hkept i _ hi⟩

theorem step (hreported : Reported h s) (hserving : Serving p around s)
    (hstep : Step p s label s') : Reported (h ++ p.notices s label) s' := by
  cases hstep with
  | tick _ | refuse _ _ _ | outside _ | bystander _ _ _ =>
      exact hreported.of_team (fun _ _ hworker => hworker) fun _ _ _ hworker => hworker
  | caller hstep =>
      generalize s.caller = caller at hstep
      cases hstep with
      | spawn _ =>
          refine hreported.of_team (fun i worker hworker => ?_) fun i unit phase hworker => ?_
          · exact getElem?_push_of_some hworker _
          · rw [Array.getElem?_push] at hworker
            split at hworker
            · cases hworker
            · exact hworker
      | _ => exact hreported.of_team (fun _ _ hworker => hworker) fun _ _ _ hworker => hworker
  | worker index here hstep =>
      rw [Plan.notices_worker here]
      exact hreported.worker_step here
        (hstep.reportStep (hserving.workers _ (Array.mem_of_getElem? here)))

end Reported

/-- No failure is lost: once all workers have stopped, every unit that failed has been reported. -/
theorem Reported.of_stopped (hreported : Reported h s)
    (hstopped : ∀ worker ∈ s.team, worker = .stopped) {unit : Nat} {failure : Failure}
    (hfailed : FailedAs h unit failure) : (unit, failure) ∈ failures h := by
  rcases hreported.ended unit failure hfailed with hdone | ⟨i, hi⟩
  · exact hdone
  · cases hstopped _ (Array.mem_of_getElem? hi)

theorem Plan.Run.reported {latch : Latch} {shared : Shared}
    (hrun : p.Run around (p.initial latch shared) h s) : Reported h s := by
  induction hrun with
  | start =>
      exact ⟨by simp [Plan.initial], by simp [Plan.initial], by simp [failures], by simp [FailedAs]⟩
  | step label before _ hnext ih => exact ih.step before.serving (step_cases hnext)

theorem Step.failure_mono (hstep : Step p s label s') {failure : Failure}
    (hfailure : s.common.latch.failure = some failure) :
    s'.common.latch.failure = some failure := by
  cases hstep with
  | tick _ | refuse _ _ _ | outside _ => exact hfailure
  | caller hstep =>
      generalize s.caller = caller at hstep
      cases hstep with
      | failStep advance _ | failReturn reply advance | waitStep advance _
      | waitReturn reply advance => exact advance.failure_mono hfailure
      | _ => exact hfailure
  | worker index here hstep =>
      cases hstep with
      | callStep _ _ _ advance _ | callReturn _ _ _ _ advance | failStep _ advance _
      | failReturn _ _ advance => exact advance.failure_mono hfailure
      | _ => exact hfailure
  | bystander index here advance => exact advance.failure_mono hfailure

/-- A latch without a failure had none before. -/
theorem Step.failure_none (hstep : Step p s label s') (hnone : s'.common.latch.failure = none) :
    s.common.latch.failure = none := by
  by_contra hsome
  obtain ⟨failure, hfailure⟩ := Option.ne_none_iff_exists'.mp hsome
  rw [hstep.failure_mono hfailure] at hnone
  cases hnone

/-- Once a worker has taken the lock to record a failure, the latch keeps one or is about to. -/
def Kept (h : History Local) (s : State Local Shared) : Prop :=
  s.common.latch.failure = none → failures h ≠ [] → ∃ (i unit : Nat) (failure : Failure),
    s.team[i]? = some (.failing unit (.recording failure))

/-- A worker about to record a failure does so. -/
theorem WorkerStep.records {unit : Nat} {failure : Failure}
    (hstep : WorkerStep p c me choice (.failing unit (.recording failure)) c' worker') :
    c'.latch.failure ≠ none := by
  cases hstep with
  | failStep _ advance _ =>
      cases advance with
      | lock free locked => cases locked
      | record _ => cases hfailure : c.latch.failure <;> simp [Latch.record, hfailure]
  | failReturn _ reply advance =>
      cases advance with
      | lock free locked => cases locked

theorem Kept.worker_step (hkept : Kept h s) {i : Nat} (here : s.team[i]? = some worker)
    (hserves : worker.Serves) (hmono : c'.latch.failure = none → s.common.latch.failure = none)
    (hstep : WorkerStep p s.common me choice worker c' worker') :
    Kept (h ++ p.workerNotices s.common worker)
      { s with common := c', team := s.team.setIfInBounds i worker' } := by
  intro hnone hsome
  have hreport := hstep.reportStep hserves
  rw [failures_append] at hsome
  have hold : failures (p.workerNotices s.common worker) = [] → ∃ (j unit : Nat)
      (failure : Failure), (s.team.setIfInBounds i worker')[j]? =
        some (.failing unit (.recording failure)) := by
    intro hunfailed
    rw [hunfailed, List.append_nil] at hsome
    obtain ⟨j, unit, failure, hother⟩ := hkept (hmono hnone) hsome
    have hne : i ≠ j := by
      rintro rfl
      rw [here] at hother
      cases hother
      exact hstep.records hnone
    exact ⟨j, unit, failure, (Array.getElem?_setIfInBounds_ne hne).trans hother⟩
  generalize p.workerNotices s.common worker = notices at hreport hold
  cases hreport with
  | other _ _ _ unfailed => exact hold unfailed
  | fail _ _ _ | go _ _ _ _ | stop _ _ _ => exact hold rfl
  | lock unit failure =>
      have hlt := (Array.getElem?_eq_some_iff.mp here).1
      exact ⟨i, unit, failure, by simp [hlt]⟩

theorem Kept.step (hkept : Kept h s) (hserving : Serving p around s)
    (hstep : Step p s label s') : Kept (h ++ p.notices s label) s' := by
  have hmono := hstep.failure_none
  cases hstep with
  | tick _ | refuse _ _ _ | outside _ | bystander _ _ _ =>
      rw [show p.notices s _ = [] from rfl, List.append_nil]
      exact fun hnone => hkept (hmono hnone)
  | caller hstep =>
      rw [show p.notices s _ = [] from rfl, List.append_nil]
      intro hnone hsome
      obtain ⟨i, unit, failure, hworker⟩ := hkept (hmono hnone) hsome
      refine ⟨i, unit, failure, ?_⟩
      generalize s.caller = caller at hstep
      cases hstep with
      | spawn _ => exact getElem?_push_of_some hworker _
      | _ => exact hworker
  | worker index here hstep =>
      rw [Plan.notices_worker here]
      exact hkept.worker_step here (hserving.workers _ (Array.mem_of_getElem? here)) hmono hstep

theorem Plan.Run.kept {latch : Latch} {shared : Shared}
    (hrun : p.Run around (p.initial latch shared) h s) : Kept h s := by
  induction hrun with
  | start => exact fun _ hsome => absurd rfl hsome
  | step label before _ hnext ih => exact ih.step before.serving (step_cases hnext)

/-- A worker inside a call is known to the latch under its thread number. -/
theorem table_worker_phase (hacc : Accounted p h s) {i : Nat} (here : s.team[i]? = some worker) :
    p.table s (workerThread i) = worker.phase? := by
  have hlt := (Array.getElem?_eq_some_iff.mp here).1
  rw [table_worker (Nat.lt_of_lt_of_le hlt hacc.team_le), here]
  rfl

theorem holds_of_recording (hacc : Accounted p h s) {i unit : Nat} {failure : Failure}
    (here : s.team[i]? = some (.failing unit (.recording failure))) :
    (p.table s).holds (workerThread i) = true := by
  rw [Latch.Table.holds, table_worker_phase hacc here]
  rfl

/-- What the latch keeps is the failure of the first worker that took the lock to record one, if
that worker has come to record it. -/
def FirstKept (h : History Local) (s : State Local Shared) : Prop :=
  s.common.latch.failure = (failures h).head?.map Prod.snd ∨
    s.common.latch.failure = none ∧ ∃ (i unit : Nat) (failure : Failure),
      s.team[i]? = some (.failing unit (.recording failure)) ∧ failures h = [(unit, failure)]

/-- A step that records no failure and takes no lock for it. -/
theorem FirstKept.of_kept (hfirst : FirstKept h s) {notices : History Local}
    (hfailure : s'.common.latch.failure = s.common.latch.failure)
    (hunfailed : failures notices = [])
    (hteam : ∀ (i unit : Nat) (failure : Failure),
      s.team[i]? = some (.failing unit (.recording failure)) →
        s'.team[i]? = some (.failing unit (.recording failure))) :
    FirstKept (h ++ notices) s' := by
  unfold FirstKept
  rw [hfailure, failures_append, hunfailed, List.append_nil]
  rcases hfirst with hhead | ⟨hnone, i, unit, failure, hworker, hlist⟩
  · exact Or.inl hhead
  · exact Or.inr ⟨hnone, i, unit, failure, hteam i unit failure hworker, hlist⟩

/-- A step of a worker that is not about to record a failure leaves the recorded one alone. -/
theorem WorkerStep.failure_eq
    (hquiet : ∀ unit call resume failure, worker ≠ .calling unit call (.recording failure) resume)
    (hfailing : ∀ unit failure, worker ≠ .failing unit (.recording failure))
    (hstep : WorkerStep p c me choice worker c' worker') : c'.latch.failure = c.latch.failure := by
  cases hstep with
  | callStep unit call resume advance _ | callReturn unit call reply resume advance =>
      apply advance.failure_eq
      rintro failure rfl
      exact hquiet unit call resume failure rfl
  | failStep unit advance _ | failReturn unit reply advance =>
      apply advance.failure_eq
      rintro failure rfl
      exact hfailing unit failure rfl
  | _ => rfl

/-- A worker takes the lock to record a failure. -/
theorem FirstKept.lock (hfirst : FirstKept h s) (hacc : Accounted p h s)
    (horder : Latch.Orderly s.common.latch (p.table s)) {i unit : Nat} {failure : Failure}
    (here : s.team[i]? = some (.failing unit (.entering (.fail failure))))
    (hfree : s.common.latch.holder = none)
    (hfailure : c'.latch.failure = s.common.latch.failure) :
    FirstKept (h ++ [.failed unit failure])
      { s with
        common := c'
        team := s.team.setIfInBounds i (.failing unit (.recording failure)) } := by
  have hlt : i < s.team.size := (Array.getElem?_eq_some_iff.mp here).1
  have hlist : failures (h ++ [Notice.failed unit failure]) = failures h ++ [(unit, failure)] := by
    simp [failures]
  have hhead : s.common.latch.failure = (failures h).head?.map Prod.snd := by
    rcases hfirst with hhead | ⟨_, j, unit', failure', hworker, _⟩
    · exact hhead
    · have hholder := (horder.held _).2 (holds_of_recording hacc hworker)
      rw [hfree] at hholder
      cases hholder
  unfold FirstKept
  rw [hlist, hfailure]
  cases hfailures : failures h with
  | nil =>
      rw [hfailures] at hhead
      exact Or.inr ⟨hhead, i, unit, failure, by simp [hlt], rfl⟩
  | cons first rest =>
      rw [hfailures] at hhead
      exact Or.inl hhead

/-- A worker that has the lock records its failure. -/
theorem FirstKept.record (hfirst : FirstKept h s) (hacc : Accounted p h s)
    (horder : Latch.Orderly s.common.latch (p.table s)) (hreported : Reported h s)
    {i unit : Nat} {failure : Failure}
    (here : s.team[i]? = some (.failing unit (.recording failure)))
    (hlatch : c'.latch = s.common.latch.record failure) :
    FirstKept (h ++ [])
      { s with common := c', team := s.team.setIfInBounds i worker' } := by
  unfold FirstKept
  rw [List.append_nil, hlatch]
  left
  rcases hfirst with hhead | ⟨hnone, j, unit', failure', hworker, hlist⟩
  · cases hfailure : s.common.latch.failure with
    | some first =>
        rw [hfailure] at hhead
        simpa [Latch.record, hfailure] using hhead
    | none =>
        have hmem := hreported.recording i unit failure here
        rw [hfailure, eq_comm, Option.map_eq_none_iff, List.head?_eq_none_iff] at hhead
        rw [hhead] at hmem
        cases hmem
  · have hthread := horder.unique (holds_of_recording hacc here) (holds_of_recording hacc hworker)
    obtain rfl : i = j := Nat.succ.inj hthread
    rw [here] at hworker
    cases hworker
    simp [Latch.record, hnone, hlist]

theorem FirstKept.worker_step (hfirst : FirstKept h s) (hacc : Accounted p h s)
    (horder : Latch.Orderly s.common.latch (p.table s)) (hreported : Reported h s) {i : Nat}
    (here : s.team[i]? = some worker) (hserves : worker.Serves)
    (hquiet : ∀ unit call resume failure, worker ≠ .calling unit call (.recording failure) resume)
    (hstep : WorkerStep p s.common (workerThread i) choice worker c' worker') :
    FirstKept (h ++ p.workerNotices s.common worker)
      { s with common := c', team := s.team.setIfInBounds i worker' } := by
  by_cases hrecording : ∃ unit failure, worker = .failing unit (.recording failure)
  · obtain ⟨unit, failure, rfl⟩ := hrecording
    cases hstep with
    | failStep _ advance _ =>
        cases advance with
        | lock free locked => cases locked
        | record _ => exact hfirst.record hacc horder hreported here rfl
    | failReturn _ reply advance =>
        cases advance with
        | lock free locked => cases locked
  · have hfailing : ∀ unit failure, worker ≠ .failing unit (.recording failure) :=
      fun unit failure heq => hrecording ⟨unit, failure, heq⟩
    have hfailure := hstep.failure_eq hquiet hfailing
    have hkept : failures (p.workerNotices s.common worker) = [] →
        FirstKept (h ++ p.workerNotices s.common worker)
          { s with common := c', team := s.team.setIfInBounds i worker' } := by
      intro hunfailed
      refine hfirst.of_kept hfailure hunfailed fun j unit failure hother => ?_
      have hne : i ≠ j := by
        rintro rfl
        rw [here] at hother
        exact hfailing unit failure (Option.some.inj hother)
      exact (Array.getElem?_setIfInBounds_ne hne).trans hother
    have hreport := hstep.reportStep hserves
    generalize p.workerNotices s.common worker = notices at hreport hkept ⊢
    cases hreport with
    | other _ _ _ unfailed => exact hkept unfailed
    | fail _ _ _ | go _ _ _ _ | stop _ _ _ => exact hkept rfl
    | lock unit failure =>
        have hfree : s.common.latch.holder = none := by
          cases hstep with
          | failStep _ advance _ =>
              cases advance with
              | lock free _ => exact free
        exact hfirst.lock hacc horder here hfree hfailure

theorem FirstKept.step (hfirst : FirstKept h s) (hacc : Accounted p h s)
    (hstaffed : Staffed p s) (horder : Latch.Orderly s.common.latch (p.table s))
    (hreported : Reported h s) (hserving : Serving p around s)
    (hfollowed : Followed p h s) (hquiet : ∀ failure, ¬ around.calls (.fail failure))
    (hjob : p.job.CallsOnly p.units fun call => ∀ failure, call ≠ .fail failure)
    (hstep : Step p s label s') : FirstKept (h ++ p.notices s label) s' := by
  cases hstep with
  | tick _ | refuse _ _ _ | outside _ =>
      exact hfirst.of_kept rfl rfl fun _ _ _ hworker => hworker
  | caller hstep =>
      have hserves := hserving.caller
      generalize hcaller : s.caller = caller at hstep hserves
      cases hstep with
      | spawn _ =>
          exact hfirst.of_kept rfl rfl fun _ _ _ hworker => getElem?_push_of_some hworker _
      | failStep _ _ | failReturn _ _ => exact absurd hcaller (hstaffed.hired _)
      | waitStep advance _ | waitReturn reply advance =>
          refine hfirst.of_kept ?_ rfl fun _ _ _ hworker => hworker
          apply advance.failure_eq
          rintro failure rfl
          exact hserves
      | _ => exact hfirst.of_kept rfl rfl fun _ _ _ hworker => hworker
  | @worker i choice worker worker' common here hstep =>
      rw [Plan.notices_worker here]
      have hserves := hserving.workers _ (Array.mem_of_getElem? here)
      refine hfirst.worker_step hacc horder hreported here hserves ?_ hstep
      rintro unit call resume failure rfl
      have hpermitted := hfollowed.permitted hacc hjob here
      cases call with
      | fail failure' => exact hpermitted failure' rfl
      | _ => exact hserves
  | bystander index here advance =>
      obtain ⟨call, hallowed, hserves⟩ := hserving.bystanders _ (Array.mem_of_getElem? here)
      refine hfirst.of_kept ?_ rfl fun _ _ _ hworker => hworker
      apply advance.failure_eq
      rintro failure rfl
      cases call with
      | fail failure' => exact hquiet failure' hallowed
      | _ => exact hserves

theorem Plan.Run.firstKept {expected : Nat} {shared : Shared}
    (hfits : p.units + p.threads < 2 ^ 64) (hquiet : ∀ failure, ¬ around.calls (.fail failure))
    (hrefusals : ∀ text, ¬ around.refusals text)
    (hjob : p.job.CallsOnly p.units fun call => ∀ failure, call ≠ .fail failure)
    (hrun : p.Run around (p.initial { expected := expected } shared) h s) : FirstKept h s := by
  induction hrun with
  | start => exact Or.inl rfl
  | step label before _ hnext ih =>
      exact ih.step (before.accounted hfits) (before.staffed hfits hrefusals)
        (before.orderly hfits) before.reported before.serving (before.followed hfits) hquiet hjob
        (step_cases hnext)

end Pool
end ApiSchema
