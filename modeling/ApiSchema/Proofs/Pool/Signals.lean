import ApiSchema.Proofs.Pool.Steps
import ApiSchema.Proofs.Pool.Team

/-!
Signals on their way from the units of a pool to its latch.

A signal is sent when a unit begins its call and arrives when the latch counts it. At any moment the
signals sent are those that have arrived and those that some worker still carries. As long as nobody
but the units signals, the counts of the latch are the numbers of arrivals in the history.
-/

namespace ApiSchema
namespace Pool

variable {Local Shared : Type}

/-- The signals sent so far that a test selects by unit and kind. -/
def sent (test : Nat → Signal → Bool) (h : History Local) : Nat :=
  h.countP fun
    | .called unit (.signal kind) => test unit kind
    | _ => false

/-- The arrivals so far that a test selects by unit and kind. -/
def arrived (test : Nat → Signal → Bool) (h : History Local) : Nat :=
  h.countP fun
    | .arrived unit kind => test unit kind
    | _ => false

/-- Selects all signals. -/
def anySignal : Nat → Signal → Bool :=
  fun _ _ => true

def ofKind (kind : Signal) : Nat → Signal → Bool :=
  fun _ kind' => kind' = kind

def ofUnit (unit : Nat) : Nat → Signal → Bool :=
  fun unit' _ => unit' = unit

@[simp] theorem sent_nil (test : Nat → Signal → Bool) : sent test ([] : History Local) = 0 := rfl

@[simp] theorem arrived_nil (test : Nat → Signal → Bool) :
    arrived test ([] : History Local) = 0 := rfl

@[simp] theorem sent_append (test : Nat → Signal → Bool) (h h' : History Local) :
    sent test (h ++ h') = sent test h + sent test h' :=
  List.countP_append

@[simp] theorem arrived_append (test : Nat → Signal → Bool) (h h' : History Local) :
    arrived test (h ++ h') = arrived test h + arrived test h' :=
  List.countP_append

/-- One for a worker that carries a selected signal which has not been counted yet. -/
def Worker.inFlight (test : Nat → Signal → Bool) : Worker Local → Nat
  | .calling unit _ (.entering (.signal kind)) _ | .calling unit _ (.counting kind) _ =>
    (test unit kind).toNat
  | _ => 0

variable {p : Plan Local Shared} {c c' : Common Shared} {me : Thread} {choice : Latch.Choice}
  {worker worker' : Worker Local} {h : History Local} {s s' : State Local Shared}
  {label : Label} {around : Surroundings}

@[simp] theorem sent_calling (p : Plan Local Shared) (c : Common Shared)
    (test : Nat → Signal → Bool) (unit : Nat) (call : Latch.Call) (phase : Latch.Phase)
    (resume : Latch.Reply → Local) :
    sent test (p.workerNotices c (.calling unit call phase resume)) = 0 := by
  cases phase <;> rfl

@[simp] theorem sent_failing (p : Plan Local Shared) (c : Common Shared)
    (test : Nat → Signal → Bool) (unit : Nat) (phase : Latch.Phase) :
    sent test (p.workerNotices c (.failing unit phase)) = 0 := by
  cases phase with
  | entering call => cases call <;> rfl
  | _ => rfl

@[simp] theorem arrived_failing (p : Plan Local Shared) (c : Common Shared)
    (test : Nat → Signal → Bool) (unit : Nat) (phase : Latch.Phase) :
    arrived test (p.workerNotices c (.failing unit phase)) = 0 := by
  cases phase with
  | entering call => cases call <;> rfl
  | _ => rfl

/-- What a step inside a call does to the signal that the call may carry. -/
theorem inFlight_advance (p : Plan Local Shared) (c : Common Shared)
    (test : Nat → Signal → Bool) (unit : Nat) (call : Latch.Call) {l l' : Latch} {now : Nat}
    {phase phase' : Latch.Phase} (hadvance : Latch.Advance l me now choice phase l' phase')
    (resume : Latch.Reply → Local) :
    arrived test (p.workerNotices c (.calling unit call phase resume)) +
        Worker.inFlight test (.calling unit call phase' resume) =
      Worker.inFlight test (.calling unit call phase resume) := by
  cases hadvance with
  | lock free locked =>
      cases phase with
      | entering call =>
          cases call <;> cases locked <;> simp [Plan.workerNotices, Worker.inFlight, arrived]
      | _ => cases locked <;> rfl
  | countLast kind _ | count kind _ =>
      cases htest : test unit kind <;>
        simp [Plan.workerNotices, Worker.inFlight, arrived, htest]
  | _ => rfl

/-- A signal that is sent is in flight until it arrives. -/
theorem WorkerStep.flight (test : Nat → Signal → Bool)
    (hstep : WorkerStep p c me choice worker c' worker') :
    arrived test (p.workerNotices c worker) + Worker.inFlight test worker' =
      sent test (p.workerNotices c worker) + Worker.inFlight test worker := by
  cases hstep with
  | halt _ | goOn _ => rfl
  | claim some_left => simp [Plan.workerNotices, some_left, Worker.inFlight, arrived, sent]
  | exhaust none_left =>
      simp [Plan.workerNotices, Nat.not_lt.mpr none_left, Worker.inFlight, arrived, sent]
  | succeed unit state outcome next _ | fail unit state outcome failure next _
  | access unit state act next | unblock unit state _ next _ =>
      simp [Plan.workerNotices, next, Worker.inFlight, arrived, sent]
  | call unit state call resume next =>
      cases call with
      | signal kind =>
          cases htest : test unit kind <;>
            simp [Plan.workerNotices, next, Worker.inFlight, arrived, sent, htest]
      | _ => simp [Plan.workerNotices, next, Worker.inFlight, arrived, sent]
  | callStep unit call resume advance _ =>
      rw [inFlight_advance p c test unit call advance resume, sent_calling, Nat.zero_add]
  | callReturn unit call reply resume advance =>
      have hflight := inFlight_advance p c test unit call advance resume
      rw [sent_calling, Nat.zero_add, ← hflight]
      rfl
  | failStep unit advance _ | failReturn unit reply advance =>
      rw [sent_failing, arrived_failing]
      rfl

theorem Step.flight (test : Nat → Signal → Bool) (hstep : Step p s label s') :
    arrived test (p.notices s label) + total (Worker.inFlight test) s'.team =
      sent test (p.notices s label) + total (Worker.inFlight test) s.team := by
  cases hstep with
  | tick _ | refuse _ _ _ | outside _ | bystander _ _ _ => simp [Plan.notices]
  | caller hstep =>
      generalize s.caller = caller at hstep
      cases hstep <;> simp [Plan.notices, Worker.inFlight]
  | @worker index choice worker worker' common here hstep =>
      rw [Plan.notices_worker here]
      have hset := total_set (Worker.inFlight test) here worker'
      have hflight := hstep.flight test
      show _ + total (Worker.inFlight test) (s.team.setIfInBounds index _) = _
      omega

/-- Signals sent have arrived or are in flight. -/
theorem Plan.Run.flight {latch : Latch} {shared : Shared}
    (hrun : p.Run around (p.initial latch shared) h s) (test : Nat → Signal → Bool) :
    arrived test h + total (Worker.inFlight test) s.team = sent test h := by
  induction hrun with
  | start => rfl
  | step label _ _ hnext ih =>
      have hflight := (step_cases hnext).flight test
      rw [arrived_append, sent_append]
      omega

/-- The call that a worker is inside, if any, is the one that it has begun. -/
def Worker.Serves : Worker Local → Prop
  | .calling _ call phase _ => phase.Serves call
  | .failing _ phase => ∃ failure, phase.Serves (.fail failure)
  | _ => True

/-- The call that the caller is inside, if any, is its wait or reports a worker that could not be
started. -/
def Caller.Serves (limit : Option Duration) : Caller → Prop
  | .failing phase => ∃ text, phase.Serves (.fail (.spawn text))
  | .waiting phase => phase.Serves (.wait limit)
  | _ => True

/-- What the calls under way are for: those of the caller are its own, units make the calls they
have begun, and bystanders make those of the surroundings. -/
structure Serving (p : Plan Local Shared) (around : Surroundings)
    (s : State Local Shared) : Prop where
  caller : s.caller.Serves p.limit
  workers : ∀ worker ∈ s.team, worker.Serves
  bystanders : ∀ phase ∈ s.bystanders, ∃ call, around.calls call ∧ phase.Serves call

theorem Caller.serves_afterWait (reply : Latch.Reply) (limit : Option Duration) :
    (Caller.afterWait reply).Serves limit := by
  cases reply with
  | released result => cases result <;> trivial
  | _ => trivial

theorem WorkerStep.serves (hstep : WorkerStep p c me choice worker c' worker')
    (hserves : worker.Serves) : worker'.Serves := by
  cases hstep with
  | call unit state call resume _ => cases call <;> rfl
  | fail unit state outcome failure _ _ => exact ⟨failure, rfl⟩
  | callStep unit call resume advance _ => exact advance.serves hserves
  | failStep unit advance _ =>
      obtain ⟨failure, hserves⟩ := hserves
      exact ⟨failure, advance.serves hserves⟩
  | _ => trivial

theorem Serving.caller_step (hserving : Serving p around s)
    (hstep : CallerStep p s choice s.caller s') : Serving p around s' := by
  have hcaller := hserving.caller
  generalize heq : s.caller = caller at hstep hcaller
  cases hstep with
  | spawn _ =>
      refine ⟨hserving.caller, fun worker hworker => ?_, hserving.bystanders⟩
      rcases Array.mem_push.mp hworker with hold | rfl
      · exact hserving.workers worker hold
      · trivial
  | begin _ | failReturn _ _ => exact ⟨rfl, hserving.workers, hserving.bystanders⟩
  | failStep advance _ =>
      obtain ⟨text, hserves⟩ := hcaller
      exact ⟨⟨text, advance.serves hserves⟩, hserving.workers, hserving.bystanders⟩
  | waitStep advance _ =>
      exact ⟨advance.serves hcaller, hserving.workers, hserving.bystanders⟩
  | waitReturn reply _ =>
      exact ⟨Caller.serves_afterWait reply _, hserving.workers, hserving.bystanders⟩
  | cancel _ | join _ _ _ | finish _ _ _ | escape _ =>
      exact ⟨trivial, hserving.workers, hserving.bystanders⟩

theorem Serving.step (hserving : Serving p around s)
    (hwithin : label.Within around) (hstep : Step p s label s') : Serving p around s' := by
  cases hstep with
  | tick _ => exact ⟨hserving.caller, hserving.workers, hserving.bystanders⟩
  | caller hstep => exact hserving.caller_step hstep
  | refuse text _ _ => exact ⟨⟨text, rfl⟩, hserving.workers, hserving.bystanders⟩
  | worker index here hstep =>
      refine ⟨hserving.caller, fun worker hworker => ?_, hserving.bystanders⟩
      rcases Array.mem_or_eq_of_mem_setIfInBounds hworker with hold | rfl
      · exact hserving.workers worker hold
      · exact hstep.serves (hserving.workers _ (Array.mem_of_getElem? here))
  | outside call =>
      refine ⟨hserving.caller, hserving.workers, fun phase hphase => ?_⟩
      rcases Array.mem_push.mp hphase with hold | rfl
      · exact hserving.bystanders phase hold
      · exact ⟨call, hwithin, by cases call <;> rfl⟩
  | bystander index here advance =>
      refine ⟨hserving.caller, hserving.workers, fun phase hphase => ?_⟩
      rcases Array.mem_or_eq_of_mem_setIfInBounds hphase with hold | rfl
      · exact hserving.bystanders phase hold
      · obtain ⟨call, hallowed, hserves⟩ :=
          hserving.bystanders _ (Array.mem_of_getElem? here)
        exact ⟨call, hallowed, advance.serves hserves⟩

theorem Plan.Run.serving {latch : Latch} {shared : Shared}
    (hrun : p.Run around (p.initial latch shared) h s) : Serving p around s := by
  induction hrun with
  | start =>
      refine ⟨?_, fun worker hworker => ?_, fun phase hphase => ?_⟩
      · by_cases hunits : p.units = 0 <;> simp [Plan.initial, hunits, Caller.Serves]
      · simp [Plan.initial] at hworker
      · simp [Plan.initial] at hphase
  | step label _ hwithin hnext ih => exact ih.step hwithin (step_cases hnext)

/-- The count that a latch keeps of one kind of arrivals. -/
def countOf (l : Latch) : Signal → UInt64
  | .slot => l.slots
  | .property => l.properties

theorem countOf_advance {l l' : Latch} {now : Nat} {phase phase' : Latch.Phase}
    (hadvance : Latch.Advance l me now choice phase l' phase')
    (hphase : ∀ kind, phase ≠ .counting kind) (kind : Signal) :
    countOf l' kind = countOf l kind := by
  obtain ⟨hslots, hproperties⟩ := hadvance.counts_eq hphase
  cases kind
  · exact hslots
  · exact hproperties

/-- Only a call that signals gets as far as counting. -/
theorem Serves.ne_counting {call : Latch.Call} {phase : Latch.Phase} (hserves : phase.Serves call)
    (hcall : ∀ kind, call ≠ .signal kind) (kind : Signal) : phase ≠ .counting kind := by
  rintro rfl
  cases call with
  | signal kind' => exact hcall kind' rfl
  | _ => exact hserves

theorem countOf_count (l : Latch) (kind kind' : Signal) :
    countOf (l.count kind') kind =
      countOf l kind + UInt64.ofNat (if kind' = kind then 1 else 0) := by
  cases kind' <;> cases kind <;> simp [countOf, Latch.count]

/-- A step inside a call counts an arrival when the history notes one. -/
theorem countOf_calling (p : Plan Local Shared) (c : Common Shared) (unit : Nat)
    (call : Latch.Call) {l l' : Latch} {now : Nat} {phase phase' : Latch.Phase}
    (hadvance : Latch.Advance l me now choice phase l' phase') (resume : Latch.Reply → Local)
    (kind : Signal) :
    countOf l' kind = countOf l kind +
      UInt64.ofNat
        (arrived (ofKind kind) (p.workerNotices c (.calling unit call phase resume))) := by
  by_cases hcounting : ∃ kind', phase = .counting kind'
  · obtain ⟨kind', rfl⟩ := hcounting
    rw [hadvance.eq_count, countOf_count]
    by_cases hkind : kind' = kind <;> simp [Plan.workerNotices, arrived, ofKind, hkind]
  · have hphase : ∀ kind', phase ≠ .counting kind' := fun kind' heq => hcounting ⟨kind', heq⟩
    have hnone :
        arrived (ofKind kind) (p.workerNotices c (.calling unit call phase resume)) = 0 := by
      cases phase with
      | counting kind' => exact absurd rfl (hphase kind')
      | _ => rfl
    rw [countOf_advance hadvance hphase, hnone]
    simp

theorem WorkerStep.countOf (hserves : worker.Serves)
    (hstep : WorkerStep p c me choice worker c' worker') (kind : Signal) :
    countOf c'.latch kind =
      countOf c.latch kind + UInt64.ofNat (arrived (ofKind kind) (p.workerNotices c worker)) := by
  cases hstep with
  | halt _ | goOn _ => simp [Plan.workerNotices]
  | claim some_left => simp [Plan.workerNotices, some_left, arrived]
  | exhaust none_left => simp [Plan.workerNotices, Nat.not_lt.mpr none_left]
  | succeed unit state outcome next _ | fail unit state outcome failure next _
  | access unit state act next | unblock unit state _ next _ | call unit state call _ next =>
      simp [Plan.workerNotices, next, arrived]
  | callStep unit call resume advance _ | callReturn unit call reply resume advance =>
      exact countOf_calling p c unit call advance resume kind
  | failStep unit advance _ | failReturn unit reply advance =>
      obtain ⟨failure, hserves⟩ := hserves
      rw [arrived_failing]
      simpa using countOf_advance advance (Serves.ne_counting hserves (by simp)) kind

/-- The latch counts the arrivals that the history notes, if bystanders report none. -/
theorem Step.countOf (hserving : Serving p around s)
    (hquiet : ∀ kind, ¬ around.calls (.signal kind)) (hstep : Step p s label s') (kind : Signal) :
    countOf s'.common.latch kind =
      countOf s.common.latch kind + UInt64.ofNat (arrived (ofKind kind) (p.notices s label)) := by
  cases hstep with
  | tick _ | refuse _ _ _ | outside _ => simp [Plan.notices]
  | caller hstep =>
      have hserves := hserving.caller
      generalize s.caller = caller at hstep hserves
      cases hstep with
      | failStep advance _ | failReturn reply advance =>
          obtain ⟨text, hserves⟩ := hserves
          simpa [Plan.notices] using
            countOf_advance advance (Serves.ne_counting hserves (by simp)) kind
      | waitStep advance _ | waitReturn reply advance =>
          simpa [Plan.notices] using
            countOf_advance advance (Serves.ne_counting hserves (by simp)) kind
      | cancel failure => cases kind <;> simp [Plan.notices, Pool.countOf, Latch.cancel]
      | _ => simp [Plan.notices]
  | worker index here hstep =>
      rw [Plan.notices_worker here]
      exact hstep.countOf (hserving.workers _ (Array.mem_of_getElem? here)) kind
  | bystander index here advance =>
      obtain ⟨call, hallowed, hserves⟩ := hserving.bystanders _ (Array.mem_of_getElem? here)
      have hcall : ∀ kind, call ≠ .signal kind := by
        rintro kind rfl
        exact hquiet kind hallowed
      simpa [Plan.notices] using countOf_advance advance (Serves.ne_counting hserves hcall) kind

theorem Plan.Run.countOf {latch : Latch} {shared : Shared}
    (hquiet : ∀ kind, ¬ around.calls (.signal kind))
    (hrun : p.Run around (p.initial latch shared) h s) (kind : Signal) :
    countOf s.common.latch kind = countOf latch kind + UInt64.ofNat (arrived (ofKind kind) h) := by
  induction hrun with
  | start => simp [Plan.initial]
  | step label before _ hnext ih =>
      rw [(step_cases hnext).countOf before.serving hquiet kind, ih, arrived_append,
        UInt64.ofNat_add, UInt64.add_assoc]

/-- Every arrival is of one of the two kinds. -/
theorem arrived_kinds (h : History Local) :
    arrived anySignal h = arrived (ofKind .slot) h + arrived (ofKind .property) h := by
  induction h with
  | nil => rfl
  | cons notice rest ih =>
      cases notice with
      | arrived unit kind =>
          cases kind <;> simp_all [arrived, anySignal, ofKind] <;> omega
      | _ => simpa [arrived] using ih

/-- What a fresh latch has counted. -/
theorem Plan.Run.arrivals_eq {expected : Nat} {shared : Shared}
    (hquiet : ∀ kind, ¬ around.calls (.signal kind))
    (hrun : p.Run around (p.initial { expected := expected } shared) h s) :
    s.common.latch.arrivals = UInt64.ofNat (arrived anySignal h) := by
  have hslots := hrun.countOf hquiet .slot
  have hproperties := hrun.countOf hquiet .property
  simp only [Pool.countOf, UInt64.zero_add] at hslots hproperties
  rw [Latch.arrivals, hslots, hproperties, ← UInt64.ofNat_add, ← arrived_kinds]

theorem Step.expected_eq (hstep : Step p s label s') :
    s'.common.latch.expected = s.common.latch.expected := by
  cases hstep with
  | tick _ | refuse _ _ _ | outside _ => rfl
  | caller hstep =>
      generalize s.caller = caller at hstep
      cases hstep with
      | failStep advance _ | failReturn reply advance | waitStep advance _
      | waitReturn reply advance => exact advance.expected_eq
      | _ => rfl
  | worker index here hstep =>
      cases hstep with
      | callStep _ _ _ advance _ | callReturn _ _ _ _ advance | failStep _ advance _
      | failReturn _ _ advance => exact advance.expected_eq
      | _ => rfl
  | bystander index here advance => exact advance.expected_eq

theorem Plan.Run.expected_eq {latch : Latch} {shared : Shared}
    (hrun : p.Run around (p.initial latch shared) h s) :
    s.common.latch.expected = latch.expected := by
  induction hrun with
  | start => rfl
  | step label _ _ hnext ih => exact (step_cases hnext).expected_eq.trans ih

end Pool
end ApiSchema
