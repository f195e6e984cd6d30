import ApiSchema.Proofs.Pool.Verdict

/-!
Why a pool stops working.

Where the units make prompt calls only and nobody else calls the latch, the cancellation flag is
raised for a failure or because the caller has given up. A worker stops for the flag, for a failure
of its own or for want of units. A worker that could not be started is a failure too, which the
caller has the latch keep before it goes on to wait.
-/

namespace ApiSchema
namespace Pool

variable {Local Shared : Type} {p : Plan Local Shared} {c c' : Common Shared} {me : Thread}
  {choice : Latch.Choice} {worker worker' : Worker Local} {h : History Local}
  {s s' : State Local Shared} {label : Label}

/-- A caller that has given up, or has found a failure. -/
def Caller.GaveUp : Caller → Prop
  | .waiting (.expiring _ _) | .waiting (.releasing (.released (.error _))) | .cancelling _
  | .joining (.error _) _ | .returned (.error _) => True
  | _ => False

/-- Whether a call that records a failure has come so far that the latch keeps one. -/
def Recorded : Latch.Phase → Prop
  | .entering _ | .recording _ => False
  | _ => True

def Worker.Recorded : Worker Local → Prop
  | .failing _ phase => Pool.Recorded phase
  | _ => False

def Caller.Recorded : Caller → Prop
  | .failing phase => Pool.Recorded phase
  | _ => False

/-- A caller that has not started all its workers yet, and has not recorded why. -/
def Caller.Hiring : Caller → Prop
  | .starting | .failing _ => True
  | _ => False

/-- What is known to have happened when work stops: the flag is up for a failure or because the
caller has given up, a worker stops for the flag, for a failure of its own or for want of units, and
a worker is missing only for a failure. -/
structure Reasoned (p : Plan Local Shared) (s : State Local Shared) : Prop where
  cancelled : s.common.latch.cancelled = true →
    s.common.latch.failure.isSome = true ∨ s.caller.GaveUp
  workers : ∀ worker ∈ s.team, worker.Recorded → s.common.latch.failure.isSome = true
  caller : s.caller.Recorded → s.common.latch.failure.isSome = true
  stopped : .stopped ∈ s.team → s.common.latch.cancelled = true ∨
    s.common.latch.failure.isSome = true ∨ p.units ≤ s.common.cursor.toNat
  missing : ¬ s.caller.Hiring → s.common.latch.failure.isSome = true ∨ s.team.size = p.threads

/-- A harmless call neither records a failure nor raises the flag. -/
theorem Harmless.advance {call : Latch.Call} {l l' : Latch} {now : Nat}
    {phase phase' : Latch.Phase} (hharmless : Harmless call) (hserves : phase.Serves call)
    (hadvance : Latch.Advance l me now choice phase l' phase') :
    l'.failure = l.failure ∧ (l'.cancelled = true → l.cancelled = true) := by
  constructor
  · apply hadvance.failure_eq
    rintro failure rfl
    cases call <;> first | exact hserves | exact hharmless
  · intro hcancelled
    rcases hadvance.cancelled_cases hcancelled with hold | rfl | rfl | ⟨start, limit, rfl⟩
    · exact hold
    · cases hserves
      exact hharmless.elim
    · cases call <;> first | exact hserves.elim | exact hharmless.elim
    · have hserves' := hadvance.serves hserves
      cases call with
      | wait limit' =>
          cases hserves'
          exact hharmless.elim
      | _ => exact hserves'.elim

/-- A call that records a failure raises the flag only after that. -/
theorem recorded_advance {failure : Failure} {l l' : Latch} {now : Nat}
    {phase phase' : Latch.Phase} (hserves : phase.Serves (.fail failure))
    (hold : Recorded phase → l.failure.isSome = true)
    (hadvance : Latch.Advance l me now choice phase l' phase') :
    (l'.cancelled = true → l.cancelled = true ∨ l'.failure.isSome = true) ∧
      (Recorded phase' → l'.failure.isSome = true) := by
  cases hadvance with
  | lock free locked =>
      refine ⟨Or.inl, fun hrecorded => ?_⟩
      cases phase with
      | entering call =>
          cases hserves
          cases locked
          exact hrecorded.elim
      | locking _ | waking _ _ => exact hserves.elim
      | _ => cases locked
  | cancel | peek | pass _ _ | overflow _ _ _ | await _ _ _ => cases hserves
  | record failure =>
      have hsome : (l.record failure).failure.isSome = true := by
        cases hfailure : l.failure <;> simp [Latch.record, hfailure]
      exact ⟨fun _ => Or.inr hsome, fun _ => hsome⟩
  | flag => exact ⟨fun _ => Or.inr (hold trivial), fun _ => hold trivial⟩
  | notify | release _ => exact ⟨Or.inl, fun _ => hold trivial⟩
  | countLast _ _ | count _ _ | read | refuse _ _ _ | allow _ _ _ | park _ _ _ | expire _ _ _ _
  | retry _ _ _ | giveUp _ _ | wake _ _ | stir _ _ | alarm _ _ _ _ _ => exact hserves.elim

/-- What a step of a worker contributes to the reasons. -/
theorem WorkerStep.reasoned (hserves : worker.Serves)
    (hprompt : ∀ unit call phase resume, worker = .calling unit call phase resume → Prompt call)
    (hold : worker.Recorded → c.latch.failure.isSome = true)
    (hcursor : c.cursor.toNat ≤ c'.cursor.toNat)
    (hstep : WorkerStep p c me choice worker c' worker') :
    (c'.latch.cancelled = true → c.latch.cancelled = true ∨ c'.latch.failure.isSome = true) ∧
      (worker'.Recorded → c'.latch.failure.isSome = true) ∧
      (worker' = .stopped → c'.latch.cancelled = true ∨ c'.latch.failure.isSome = true ∨
        p.units ≤ c'.cursor.toNat) := by
  cases hstep with
  | halt cancelled => exact ⟨Or.inl, False.elim, fun _ => Or.inl cancelled⟩
  | exhaust none_left =>
      exact ⟨Or.inl, False.elim, fun _ => Or.inr (Or.inr (Nat.le_trans none_left hcursor))⟩
  | callStep unit call resume advance _ | callReturn unit call reply resume advance =>
      obtain ⟨_, hcancelled⟩ :=
        (hprompt unit call _ resume rfl).harmless.advance hserves advance
      exact ⟨fun h => Or.inl (hcancelled h), False.elim, nofun⟩
  | failStep unit advance _ =>
      obtain ⟨failure, hserves⟩ := hserves
      obtain ⟨hcancelled, hrecorded⟩ := recorded_advance hserves hold advance
      exact ⟨hcancelled, hrecorded, nofun⟩
  | failReturn unit reply advance =>
      obtain ⟨failure, hserves⟩ := hserves
      obtain ⟨hcancelled, hrecorded⟩ := recorded_advance hserves hold advance
      exact ⟨hcancelled, False.elim, fun _ => Or.inr (Or.inl (hrecorded trivial))⟩
  | _ => exact ⟨Or.inl, False.elim, nofun⟩

theorem phase_of_gaveUp {phase : Latch.Phase} (hgave : (Caller.waiting phase).GaveUp) :
    (∃ start limit, phase = .expiring start limit) ∨
      ∃ failure, phase = .releasing (.released (.error failure)) := by
  cases phase with
  | expiring start limit => exact Or.inl ⟨start, limit, rfl⟩
  | releasing reply =>
      cases reply with
      | released result =>
          cases result with
          | ok _ => exact hgave.elim
          | error failure => exact Or.inr ⟨failure, rfl⟩
      | _ => exact hgave.elim
  | _ => exact hgave.elim

/-- A caller that has given up does not take it back. -/
theorem CallerStep.gaveUp (hstep : CallerStep p s choice s.caller s')
    (hgave : s.caller.GaveUp) : s'.caller.GaveUp := by
  generalize hcaller : s.caller = caller at hstep hgave
  cases hstep with
  | spawn _ | begin _ | failStep _ _ | failReturn _ _ | escape _ => exact hgave.elim
  | waitStep advance unfinished =>
      rcases phase_of_gaveUp hgave with ⟨start, limit, rfl⟩ | ⟨failure, rfl⟩
      · cases advance with
        | lock _ locked => cases locked
        | giveUp _ _ => trivial
      · cases advance with
        | lock _ locked => cases locked
        | release reply => exact absurd rfl (unfinished _)
  | waitReturn reply advance =>
      rcases phase_of_gaveUp hgave with ⟨start, limit, rfl⟩ | ⟨failure, rfl⟩
      · cases advance with
        | lock _ locked => cases locked
      · cases advance with
        | lock _ locked => cases locked
        | release reply => trivial
  | cancel _ => trivial
  | join result _ _ | finish result _ _ =>
      cases result with
      | ok _ => exact hgave.elim
      | error _ => trivial

/-- What a step of the caller contributes to the reasons for the flag. -/
theorem CallerStep.cancelled (hserves : s.caller.Serves p.limit)
    (hold : s.caller.Recorded → s.common.latch.failure.isSome = true)
    (hstep : CallerStep p s choice s.caller s')
    (hcancelled : s'.common.latch.cancelled = true) :
    s.common.latch.cancelled = true ∨ s'.common.latch.failure.isSome = true ∨
      s'.caller.GaveUp := by
  generalize s.caller = caller at hstep hserves hold
  cases hstep with
  | cancel _ => exact Or.inr (Or.inr trivial)
  | failStep advance _ | failReturn reply advance =>
      obtain ⟨text, hserves⟩ := hserves
      rcases (recorded_advance hserves hold advance).1 hcancelled with hflag | hfailure
      · exact Or.inl hflag
      · exact Or.inr (Or.inl hfailure)
  | waitStep advance _ =>
      rcases advance.cancelled_cases hcancelled with hflag | rfl | rfl | ⟨start, limit, rfl⟩
      · exact Or.inl hflag
      · cases hserves
      · exact hserves.elim
      · exact Or.inr (Or.inr trivial)
  | waitReturn reply advance =>
      rcases advance.cancelled_cases hcancelled with hflag | rfl | rfl | ⟨start, limit, heq⟩
      · exact Or.inl hflag
      · cases hserves
      · exact hserves.elim
      · cases heq
  | _ => exact Or.inl hcancelled

theorem Caller.not_recorded_afterWait (reply : Latch.Reply) :
    ¬ (Caller.afterWait reply).Recorded := by
  cases reply with
  | released result => cases result <;> exact id
  | _ => exact id

/-- A caller that reports a missing worker goes on to have the latch keep that. -/
theorem CallerStep.recorded (hserves : s.caller.Serves p.limit)
    (hold : s.caller.Recorded → s.common.latch.failure.isSome = true)
    (hstep : CallerStep p s choice s.caller s') (hrecorded : s'.caller.Recorded) :
    s'.common.latch.failure.isSome = true := by
  generalize hcaller : s.caller = caller at hstep hserves hold
  cases hstep with
  | spawn _ =>
      rw [show Caller.Recorded _ = Caller.Recorded s.caller from rfl, hcaller] at hrecorded
      exact hrecorded.elim
  | failStep advance _ =>
      obtain ⟨text, hserves⟩ := hserves
      exact (recorded_advance hserves hold advance).2 hrecorded
  | waitReturn reply _ => exact absurd hrecorded (Caller.not_recorded_afterWait reply)
  | begin _ | failReturn _ _ | waitStep _ _ | cancel _ | join _ _ _ | finish _ _ _ | escape _ =>
      exact hrecorded.elim

/-- A caller goes on to its wait with all its workers, or with a failure that says why not. -/
theorem CallerStep.missing (hteam : s.team.size ≤ p.threads) (hserves : s.caller.Serves p.limit)
    (hrecorded : s.caller.Recorded → s.common.latch.failure.isSome = true)
    (hold : ¬ s.caller.Hiring → s.common.latch.failure.isSome = true ∨ s.team.size = p.threads)
    (hmono : s.common.latch.failure.isSome = true → s'.common.latch.failure.isSome = true)
    (hstep : CallerStep p s choice s.caller s') (hhired : ¬ s'.caller.Hiring) :
    s'.common.latch.failure.isSome = true ∨ s'.team.size = p.threads := by
  generalize hcaller : s.caller = caller at hstep hserves hrecorded hold
  cases hstep with
  | spawn _ =>
      rw [show Caller.Hiring _ = Caller.Hiring s.caller from rfl, hcaller] at hhired
      exact absurd trivial hhired
  | begin enough => exact Or.inr (Nat.le_antisymm hteam enough)
  | failStep _ _ => exact absurd trivial hhired
  | failReturn reply advance =>
      obtain ⟨text, hserves⟩ := hserves
      exact Or.inl ((recorded_advance hserves hrecorded advance).2 trivial)
  | waitStep _ _ | waitReturn _ _ | cancel _ | join _ _ _ | finish _ _ _ | escape _ =>
      exact (hold id).imp_left hmono

theorem Serving.bystanders_empty (hserving : Serving p refusing s) : s.bystanders = #[] := by
  rw [Array.eq_empty_iff_forall_not_mem]
  intro phase hphase
  obtain ⟨call, hcall, _⟩ := hserving.bystanders phase hphase
  exact hcall

theorem Step.failure_isSome (hstep : Step p s label s')
    (hsome : s.common.latch.failure.isSome = true) : s'.common.latch.failure.isSome = true := by
  obtain ⟨failure, hfailure⟩ := Option.isSome_iff_exists.mp hsome
  rw [hstep.failure_mono hfailure]
  rfl

theorem WorkerStep.cancelled_mono (hstep : WorkerStep p c me choice worker c' worker')
    (hcancelled : c.latch.cancelled = true) : c'.latch.cancelled = true := by
  cases hstep with
  | callStep _ _ _ advance _ | callReturn _ _ _ _ advance | failStep _ advance _
  | failReturn _ _ advance => exact advance.cancelled_mono hcancelled
  | _ => exact hcancelled

theorem Step.cancelled_mono (hstep : Step p s label s')
    (hcancelled : s.common.latch.cancelled = true) : s'.common.latch.cancelled = true := by
  cases hstep with
  | tick _ | refuse _ _ _ | outside _ => exact hcancelled
  | caller hstep =>
      generalize s.caller = caller at hstep
      cases hstep with
      | failStep advance _ | failReturn reply advance | waitStep advance _
      | waitReturn reply advance => exact advance.cancelled_mono hcancelled
      | cancel _ => rfl
      | _ => exact hcancelled
  | worker index here hstep => exact hstep.cancelled_mono hcancelled
  | bystander index here advance => exact advance.cancelled_mono hcancelled

theorem Reasoned.caller_step (hreasoned : Reasoned p s) (hacc : Accounted p h s)
    (hserving : Serving p refusing s) (hstep : CallerStep p s choice s.caller s') :
    Reasoned p s' := by
  have hmono := (Step.caller hstep).failure_isSome
  have hteam : ∀ worker ∈ s'.team, worker ∈ s.team ∨ worker = .checking := by
    intro worker hworker
    generalize s.caller = caller at hstep
    cases hstep with
    | spawn _ => exact Array.mem_push.mp hworker
    | _ => exact Or.inl hworker
  have hcursor : s'.common.cursor = s.common.cursor := by
    generalize s.caller = caller at hstep
    cases hstep <;> rfl
  refine ⟨fun hcancelled => ?_, fun worker hworker hrecorded => ?_,
    hstep.recorded hserving.caller hreasoned.caller, fun hstopped => ?_,
    hstep.missing hacc.team_le hserving.caller hreasoned.caller hreasoned.missing hmono⟩
  · rcases hstep.cancelled hserving.caller hreasoned.caller hcancelled with
      hold | hfailure | hgave
    · rcases hreasoned.cancelled hold with hfailure | hgave
      · exact Or.inl (hmono hfailure)
      · exact Or.inr (hstep.gaveUp hgave)
    · exact Or.inl hfailure
    · exact Or.inr hgave
  · rcases hteam worker hworker with hold | rfl
    · exact hmono (hreasoned.workers worker hold hrecorded)
    · exact hrecorded.elim
  · rcases hteam _ hstopped with hold | heq
    · rw [hcursor]
      rcases hreasoned.stopped hold with hcancelled | hfailure | hcursor
      · exact Or.inl ((Step.caller hstep).cancelled_mono hcancelled)
      · exact Or.inr (Or.inl (hmono hfailure))
      · exact Or.inr (Or.inr hcursor)
    · cases heq

theorem Reasoned.worker_step (hreasoned : Reasoned p s) {i : Nat} (here : s.team[i]? = some worker)
    (hserves : worker.Serves)
    (hprompt : ∀ unit call phase resume, worker = .calling unit call phase resume → Prompt call)
    (hcursor : s.common.cursor.toNat ≤ c'.cursor.toNat)
    (hmono : s.common.latch.failure.isSome = true → c'.latch.failure.isSome = true)
    (hstep : WorkerStep p s.common me choice worker c' worker') :
    Reasoned p { s with common := c', team := s.team.setIfInBounds i worker' } := by
  obtain ⟨hcancelled, hrecorded, hstopped⟩ := hstep.reasoned hserves hprompt
    (hreasoned.workers worker (Array.mem_of_getElem? here)) hcursor
  refine ⟨fun h => ?_, fun other hother h => ?_, fun h => hmono (hreasoned.caller h), fun h => ?_,
    fun h => ?_⟩
  · rcases hcancelled h with hold | hfailure
    · rcases hreasoned.cancelled hold with hfailure | hgave
      · exact Or.inl (hmono hfailure)
      · exact Or.inr hgave
    · exact Or.inl hfailure
  · rcases Array.mem_or_eq_of_mem_setIfInBounds hother with hold | rfl
    · exact hmono (hreasoned.workers other hold h)
    · exact hrecorded h
  · rcases Array.mem_or_eq_of_mem_setIfInBounds h with hold | heq
    · rcases hreasoned.stopped hold with hcancelled | hfailure | hdone
      · exact Or.inl (hstep.cancelled_mono hcancelled)
      · exact Or.inr (Or.inl (hmono hfailure))
      · exact Or.inr (Or.inr (Nat.le_trans hdone hcursor))
    · exact hstopped heq.symm
  · simpa using (hreasoned.missing h).imp_left hmono

theorem Reasoned.step (hreasoned : Reasoned p s) (hacc : Accounted p h s)
    (hfits : p.units + p.threads < 2 ^ 64) (hserving : Serving p refusing s)
    (hfollowed : Followed p h s) (hcalls : p.job.CallsOnly p.units Prompt)
    (hstep : Step p s label s') : Reasoned p s' := by
  cases hstep with
  | tick _ | outside _ =>
      exact ⟨hreasoned.cancelled, hreasoned.workers, hreasoned.caller, hreasoned.stopped,
        hreasoned.missing⟩
  | caller hstep => exact hreasoned.caller_step hacc hserving hstep
  | refuse text starting _ =>
      refine ⟨fun hcancelled => ?_, hreasoned.workers, False.elim, hreasoned.stopped,
        fun hhired => absurd trivial hhired⟩
      rcases hreasoned.cancelled hcancelled with hfailure | hgave
      · exact Or.inl hfailure
      · rw [starting] at hgave
        exact hgave.elim
  | @worker i choice worker worker' common here hstep =>
      refine hreasoned.worker_step here (hserving.workers _ (Array.mem_of_getElem? here)) ?_
        (hacc.cursor_mono hfits (Step.worker i here hstep))
        (Step.worker i here hstep).failure_isSome hstep
      rintro unit call phase resume rfl
      exact hfollowed.permitted hacc hcalls here
  | bystander index here _ =>
      rw [hserving.bystanders_empty] at here
      cases here

theorem Plan.Run.reasoned {latch : Latch} {shared : Shared}
    (hfits : p.units + p.threads < 2 ^ 64) (hfresh : latch.cancelled = false)
    (hcalls : p.job.CallsOnly p.units Prompt)
    (hrun : p.Run refusing (p.initial latch shared) h s) : Reasoned p s := by
  induction hrun with
  | start =>
      refine ⟨fun hcancelled => ?_, by simp [Plan.initial], ?_, by simp [Plan.initial], ?_⟩
      · rw [show (p.initial latch shared).common.latch.cancelled = false from hfresh]
          at hcancelled
        cases hcancelled
      · by_cases hunits : p.units = 0 <;> simp [Plan.initial, hunits, Caller.Recorded]
      · by_cases hunits : p.units = 0 <;>
          simp [Plan.initial, hunits, Caller.Hiring, Plan.threads]
  | step label before _ hnext ih =>
      exact ih.step (before.accounted hfits) hfits before.serving (before.followed hfits) hcalls
        (step_cases hnext)

/-- Without a failure and without a caller that gave up, workers stop for want of units only. -/
theorem Reasoned.all_claimed (hreasoned : Reasoned p s) (hacc : Accounted p h s)
    (hstopped : .stopped ∈ s.team) (hfailure : s.common.latch.failure = none)
    (hgave : ¬ s.caller.GaveUp) : claimedUnits h = List.range p.units := by
  have hcursor : p.units ≤ s.common.cursor.toNat := by
    rcases hreasoned.stopped hstopped with hcancelled | hsome | hcursor
    · rcases hreasoned.cancelled hcancelled with hsome | hgave'
      · rw [hfailure] at hsome
        cases hsome
      · exact absurd hgave' hgave
    · rw [hfailure] at hsome
      cases hsome
    · exact hcursor
  rw [hacc.claims, Nat.min_eq_right hcursor]

end Pool
end ApiSchema
