import ApiSchema.Proofs.Pool.Progress
import Mathlib.Algebra.Order.Group.Multiset

/-!
What the steps of a pool use up.

Every thread has a toll, a number that says how many steps it can take before the program of a unit
moves on or another thread does something for it. Every step of a thread lowers the sum of the
tolls or moves the program of a unit on, which raises the sum by a bounded fee. A wake-up raises
the toll of the caller, and the thread that wakes it pays for that.
-/

namespace ApiSchema
namespace Pool

open Latch (Phase Advance)

variable {Local Shared : Type} {p : Plan Local Shared} {c c' : Common Shared} {me : Thread}
  {choice : Latch.Choice} {worker worker' : Worker Local} {h : History Local}
  {s s' : State Local Shared} {label : Label}

/-- The toll of a prompt call, or of one that records a failure. Who is about to wake the caller has
put aside what the caller then needs. -/
def callToll : Phase → Nat
  | .entering (.fail _) => 9
  | .entering (.signal _) | .recording _ => 8
  | .counting _ | .flagging => 7
  | .notifying => 6
  | .entering .arrived => 3
  | .reading => 2
  | .entering .isCancelled | .releasing _ => 1
  | _ => 0

def Worker.toll : Worker Local → Nat
  | .checking => 2
  | .claiming => 1
  | .calling _ _ phase _ | .failing _ phase => callToll phase
  | .running _ _ | .stopped => 0

/-- The toll of a waiting caller that has to join some number of workers. A sleeper that has been
woken may have to go back to sleep; one that its limit has woken does not. -/
def waitToll (threads : Nat) (l : Latch) : Phase → Nat
  | .entering _ => threads + 10
  | .locking _ => threads + 9
  | .examining _ => if l.isOpen then threads + 4 else threads + 8
  | .sleeping _ => if callerThread ∈ l.parked then threads + 7 else threads + 11
  | .waking waiting expired =>
    if expired ∧ waiting.limit.isSome then threads + 6 else threads + 10
  | .resuming waiting expired =>
    if expired ∧ waiting.limit.isSome then threads + 5 else threads + 9
  | .expiring _ _ => threads + 4
  | _ => threads + 3

/-- The toll of the caller. Starting a worker pays for the first steps of the worker, and for the
caller's report should the system refuse to start it. -/
def Caller.toll (threads started : Nat) (l : Latch) : Caller → Nat
  | .starting => threads + 17 + 3 * (threads - started)
  | .failing phase => threads + 10 + callToll phase
  | .waiting phase => waitToll threads l phase
  | .cancelling _ => threads + 2
  | .joining _ next => threads - next + 1
  | .unwinding => 1
  | .returned _ | .panicked => 0

def Plan.toll (p : Plan Local Shared) (s : State Local Shared) : Nat :=
  total Worker.toll s.team + s.caller.toll p.threads s.team.size s.common.latch

/-- A change of the latch that neither opens it nor wakes anybody leaves the caller's toll alone. -/
theorem Caller.toll_congr {l l' : Latch} (caller : Caller) (threads started : Nat)
    (hparked : l'.parked = l.parked)
    (hopen : (∃ waiting, caller = .waiting (.examining waiting)) → l'.isOpen = l.isOpen) :
    caller.toll threads started l' = caller.toll threads started l := by
  cases caller with
  | waiting phase =>
      cases phase with
      | examining waiting => simp only [Caller.toll, waitToll, hopen ⟨waiting, rfl⟩]
      | sleeping waiting => simp only [Caller.toll, waitToll, hparked]
      | _ => rfl
  | _ => rfl

/-- A wake-up costs the caller no more than the steps back to sleep. -/
theorem Caller.toll_notifyAll (l : Latch) (caller : Caller) (threads started : Nat) :
    caller.toll threads started l.notifyAll ≤ caller.toll threads started l + 4 := by
  cases caller with
  | waiting phase =>
      cases phase with
      | examining waiting =>
          exact Nat.le_add_right (Caller.toll threads started l (.waiting (.examining waiting))) 4
      | sleeping waiting =>
          simp only [Caller.toll, waitToll, Latch.notifyAll, List.not_mem_nil, if_false]
          split <;> omega
      | _ => exact Nat.le_add_right _ 4
  | _ => exact Nat.le_add_right _ 4

/-- Every step inside a prompt call, or inside one that records a failure, lowers the tolls. -/
theorem Advance.toll {call : Latch.Call} {l l' : Latch} {now : Nat} {phase phase' : Phase}
    {caller : Caller} (hcall : Prompt call ∨ ∃ failure, call = .fail failure)
    (hserves : phase.Serves call)
    (hlock : phase.holds = true → ∀ waiting, caller ≠ .waiting (.examining waiting))
    (hadvance : Advance l me now choice phase l' phase') (threads started : Nat) :
    callToll phase' + caller.toll threads started l' <
      callToll phase + caller.toll threads started l := by
  have hwait : ∀ limit, call ≠ .wait limit := by
    rintro limit rfl
    rcases hcall with hprompt | ⟨failure, heq⟩
    · exact hprompt
    · cases heq
  have hkeep : phase.holds = true → l'.parked = l.parked →
      caller.toll threads started l' = caller.toll threads started l := fun hholds hparked =>
    caller.toll_congr threads started hparked fun ⟨waiting, heq⟩ =>
      absurd heq (hlock hholds waiting)
  cases hadvance with
  | lock free locked =>
      have hsame : caller.toll threads started { l with holder := some me } =
          caller.toll threads started l := caller.toll_congr threads started rfl fun _ => rfl
      rw [hsame]
      cases phase with
      | entering call' => cases call' <;> cases locked <;> simp [callToll]
      | locking _ | waking _ _ =>
          cases call with
          | wait limit => exact absurd rfl (hwait limit)
          | _ => exact hserves.elim
      | _ => cases locked
  | cancel =>
      cases hserves
      rcases hcall with hprompt | ⟨failure, heq⟩
      · exact hprompt.elim
      · cases heq
  | peek => simp [callToll]
  | pass limit _ | overflow limit _ _ | await limit _ _ =>
      cases hserves
      exact absurd rfl (hwait limit)
  | countLast kind _ | count kind _ =>
      rw [hkeep rfl (by cases kind <;> rfl)]
      simp [callToll]
  | record failure =>
      rw [hkeep rfl (by cases hfailure : l.failure <;> simp [Latch.record, hfailure])]
      simp [callToll]
  | flag | release _ =>
      rw [hkeep rfl rfl]
      simp [callToll]
  | notify =>
      have hle := caller.toll_notifyAll l threads started
      simp only [callToll]
      omega
  | read => simp [callToll]
  | refuse _ _ _ | allow _ _ _ | park _ _ _ | expire _ _ _ _ | retry _ _ _ | giveUp _ _
  | wake _ _ | stir _ _ | alarm _ _ _ _ _ =>
      cases call with
      | wait limit => exact absurd rfl (hwait limit)
      | _ => exact hserves.elim

theorem examining_le (threads : Nat) (l : Latch) (waiting : Latch.Waiting) :
    waitToll threads l (.examining waiting) ≤ threads + 8 := by
  simp only [waitToll]
  split <;> omega

/-- Every step of the caller's wait lowers its toll, unless it wakes up for no reason. -/
theorem waitToll_advance {limit : Option Duration} {l l' : Latch} {now : Nat}
    {phase phase' : Phase} (hserves : phase.Serves (.wait limit)) (hchoice : choice ≠ .spurious)
    (hunfinished : ∀ reply, phase' ≠ .finished reply)
    (hadvance : Advance l callerThread now choice phase l' phase') (threads : Nat) :
    waitToll threads l' phase' < waitToll threads l phase := by
  cases hadvance with
  | lock free locked =>
      cases phase with
      | entering call =>
          cases hserves
          cases locked
      | locking waiting =>
          cases locked
          have hle := examining_le threads { l with holder := some callerThread } waiting
          simp only [waitToll] at hle ⊢
          omega
      | waking waiting expired =>
          cases locked
          simp only [waitToll]
          split <;> omega
      | _ => cases locked
  | cancel | peek => cases hserves
  | pass _ _ | overflow _ _ _ | release _ => exact absurd rfl (hunfinished _)
  | await _ _ _ => simp [waitToll]
  | countLast _ _ | count _ _ | record _ | flag | notify | read => exact hserves.elim
  | refuse waiting failure failed => simp [waitToll, Latch.isOpen, failed]
  | allow waiting unfailed complete => simp [waitToll, Latch.isOpen, complete]
  | park waiting unfailed incomplete =>
      simp [waitToll, Latch.isOpen, unfailed, incomplete, Latch.park]
  | expire waiting limit limited shut => simp [waitToll, limited]
  | retry waiting expired reason =>
      have hle := examining_le threads l waiting
      by_cases hlast : expired = true ∧ waiting.limit.isSome = true
      · have hopen : l.isOpen = true := by
          rcases reason with hnone | hearly | hopen
          · rw [hnone] at hlast
            cases hlast.2
          · rw [hearly] at hlast
            cases hlast.1
          · exact hopen
        simp [waitToll, hlast, hopen]
      · simp only [waitToll, if_neg hlast] at hle ⊢
        omega
  | giveUp start limit => simp [waitToll]
  | wake waiting notified => simp [waitToll, notified]
  | stir _ _ => exact absurd rfl hchoice
  | alarm waiting limit limited parked _ => simp [waitToll, limited, parked]

theorem toll_afterWait (threads started : Nat) (l : Latch) (reply : Latch.Reply) :
    (Caller.afterWait reply).toll threads started l ≤ threads + 2 := by
  cases reply with
  | released result =>
      cases result with
      | ok _ => exact Nat.le_succ _
      | error _ => exact Nat.le_refl _
  | panicked => exact Nat.le_add_left 1 (threads + 1)
  | _ => exact Nat.le_succ _

theorem toll_return {limit : Option Duration} {l l' : Latch} {now : Nat} {phase : Phase}
    {reply : Latch.Reply} (hserves : phase.Serves (.wait limit))
    (hadvance : Advance l callerThread now choice phase l' (.finished reply)) (threads : Nat) :
    threads + 2 < waitToll threads l phase := by
  cases hadvance with
  | lock free locked => exact absurd locked (phase.locked?_ne_finished _)
  | cancel | peek => cases hserves
  | pass _ _ | overflow _ _ _ | release _ => simp [waitToll]

/-- A caller that reports a missing worker wakes nobody, so only its own call counts. -/
theorem callToll_advance {failure : Failure} {l l' : Latch} {now : Nat} {phase phase' : Phase}
    (hserves : phase.Serves (.fail failure))
    (hadvance : Advance l me now choice phase l' phase') : callToll phase' < callToll phase := by
  have hover : ∀ waiting, Caller.panicked ≠ .waiting waiting := fun _ => nofun
  have htoll := Advance.toll (Or.inr ⟨failure, rfl⟩) hserves (fun _ _ => hover _) hadvance 0 0
  simpa [Caller.toll] using htoll

/-- Every step of the caller lowers the tolls, unless it wakes up for no reason. -/
theorem CallerStep.toll (hacc : Accounted p h s) (hserves : s.caller.Serves p.limit)
    (hchoice : choice ≠ .spurious) (hstep : CallerStep p s choice s.caller s') :
    p.toll s' < p.toll s := by
  have hteam := hacc.team_le
  unfold Plan.toll
  generalize hcaller : s.caller = caller at hstep hserves
  cases hstep with
  | spawn missing =>
      rw [total_push, Array.size_push]
      show _ + s.caller.toll _ _ _ < _
      rw [hcaller]
      simp only [Caller.toll, Worker.toll]
      omega
  | begin enough =>
      simp only [Caller.toll, waitToll]
      omega
  | failStep advance _ =>
      obtain ⟨text, hserves⟩ := hserves
      have hlt := callToll_advance hserves advance
      simp only [Caller.toll]
      omega
  | failReturn reply advance =>
      obtain ⟨text, hserves⟩ := hserves
      have hlt := callToll_advance hserves advance
      simp only [Caller.toll, waitToll]
      omega
  | waitStep advance unfinished =>
      have hlt := waitToll_advance hserves hchoice unfinished advance p.threads
      exact Nat.add_lt_add_left hlt _
  | waitReturn reply advance =>
      have hle := fun l' => toll_afterWait p.threads s.team.size l' reply
      have hlt := toll_return hserves advance p.threads
      exact Nat.add_lt_add_left (Nat.lt_of_le_of_lt (hle _) hlt) _
  | cancel failure =>
      simp only [Caller.toll]
      omega
  | join result next stopped =>
      have hlt := (Array.getElem?_eq_some_iff.mp stopped).1
      simp only [Caller.toll]
      omega
  | finish result next joined =>
      simp only [Caller.toll]
      omega
  | escape _ => exact Nat.lt_succ_self _

/-- A refusal to start a worker pays for the report of it. -/
theorem toll_refuse (starting : s.caller = .starting) (missing : s.team.size < p.threads)
    (text : String) :
    p.toll { s with caller := .failing (.entering (.fail (.spawn text))) } < p.toll s := by
  simp only [Plan.toll, starting, Caller.toll, callToll]
  omega

def Worker.positions (worker : Worker Local) : Multiset (Position Local) :=
  match worker.position? with
  | some (_, position) => {position}
  | none => 0

/-- The units that nobody has claimed, at the start of their programs. -/
def Plan.unclaimed (p : Plan Local Shared) (cursor : Nat) : Multiset (Position Local) :=
  ((List.range p.units).drop cursor).map fun unit => Position.ready (p.job.start unit)

/-- The positions of all units that have not ended. -/
def Plan.positions (p : Plan Local Shared) (s : State Local Shared) : Multiset (Position Local) :=
  p.unclaimed s.common.cursor.toNat + total Worker.positions s.team

/-- What a unit may add to the tolls by coming to a position. -/
def Position.fee : Position Local → Nat
  | .inside call _ => callToll (.entering call)
  | .ready _ => 0

/-- The two ways in which a step uses something up: it lowers the tolls, or the program of a unit
moves on. -/
inductive Spends (p : Plan Local Shared) (s s' : State Local Shared) : Prop
  | toll (same : p.positions s' = p.positions s) (less : p.toll s' < p.toll s)
  | follow {unit signals : Nat} {earlier later : Position Local} (claimed : unit < p.units)
      (visits : p.job.Visits unit signals earlier) (follows : p.job.Follows later earlier)
      (moved : p.positions s' + {earlier} = p.positions s + {later})
      (fee : p.toll s' ≤ p.toll s + later.fee)
  | finish {unit signals : Nat} {state : Local} {outcome : Outcome} (claimed : unit < p.units)
      (visits : p.job.Visits unit signals (.ready state))
      (next : p.job.next state = .finish outcome)
      (moved : p.positions s' + {.ready state} = p.positions s)
      (fee : p.toll s' ≤ p.toll s + 9)

theorem unclaimed_succ {cursor : Nat} (hleft : cursor < p.units) :
    p.unclaimed cursor = p.unclaimed (cursor + 1) + {.ready (p.job.start cursor)} := by
  have hlength : cursor < (List.range p.units).length := by simpa using hleft
  unfold Plan.unclaimed
  rw [List.drop_eq_getElem_cons hlength, List.getElem_range, List.map_cons,
    ← Multiset.cons_coe, ← Multiset.singleton_add, add_comm]

theorem unclaimed_of_le {cursor : Nat} (hdone : p.units ≤ cursor) : p.unclaimed cursor = 0 := by
  unfold Plan.unclaimed
  rw [List.drop_eq_nil_of_le (by simpa using hdone)]
  rfl

/-- The tolls after a step of a worker. -/
theorem toll_worker {i : Nat} (here : s.team[i]? = some worker) (c' : Common Shared)
    (worker' : Worker Local) :
    p.toll { s with common := c', team := s.team.setIfInBounds i worker' } + worker.toll +
        s.caller.toll p.threads s.team.size s.common.latch =
      p.toll s + worker'.toll + s.caller.toll p.threads s.team.size c'.latch := by
  have hset := total_set Worker.toll here worker'
  simp only [Plan.toll, Array.size_setIfInBounds]
  omega

theorem positions_worker {i : Nat} (here : s.team[i]? = some worker)
    (hcursor : c'.cursor = s.common.cursor) (worker' : Worker Local) :
    p.positions { s with common := c', team := s.team.setIfInBounds i worker' } +
      worker.positions = p.positions s + worker'.positions := by
  have hset := total_set Worker.positions here worker'
  simp only [Plan.positions, hcursor]
  rw [add_assoc, hset, add_assoc]

namespace Spends

variable {i unit : Nat} {earlier later : Position Local}

/-- A step of a worker that leaves the units where they are. -/
theorem of_toll (here : s.team[i]? = some worker) (hcursor : c'.cursor = s.common.cursor)
    (hsame : worker'.position? = worker.position?)
    (hless : worker'.toll + s.caller.toll p.threads s.team.size c'.latch <
      worker.toll + s.caller.toll p.threads s.team.size s.common.latch) :
    Spends p s { s with common := c', team := s.team.setIfInBounds i worker' } := by
  have htoll := toll_worker (p := p) here c' worker'
  refine Spends.toll ?_ (by omega)
  have hpositions := positions_worker (p := p) here hcursor worker'
  have hworker : worker'.positions = worker.positions := by
    simp only [Worker.positions, hsame]
  rw [hworker] at hpositions
  exact add_right_cancel hpositions

/-- A step of a worker that moves its unit on. -/
theorem of_follow (hacc : Accounted p h s) (hfollowed : Followed p h s)
    (here : s.team[i]? = some worker) (hcursor : c'.cursor = s.common.cursor)
    (hold : worker.position? = some (unit, earlier))
    (hnew : worker'.position? = some (unit, later)) (hfollows : p.job.Follows later earlier)
    (hfee : worker'.toll + s.caller.toll p.threads s.team.size c'.latch ≤
      worker.toll + s.caller.toll p.threads s.team.size s.common.latch + later.fee) :
    Spends p s { s with common := c', team := s.team.setIfInBounds i worker' } := by
  have htoll := toll_worker (p := p) here c' worker'
  have hclaimed := hacc.lt_units (hacc.of_busy here (busy_of_position hold)).1
  refine Spends.follow hclaimed (hfollowed.standing i worker here unit earlier hold) hfollows ?_
    (by omega)
  have hpositions := positions_worker (p := p) here hcursor worker'
  simpa only [Worker.positions, hold, hnew] using hpositions

/-- A step of a worker that ends its unit. -/
theorem of_finish (hacc : Accounted p h s) (hfollowed : Followed p h s) {state : Local}
    {outcome : Outcome} (here : s.team[i]? = some worker) (hcursor : c' = s.common)
    (hold : worker.position? = some (unit, .ready state)) (hnew : worker'.position? = none)
    (hnext : p.job.next state = .finish outcome) (hfee : worker'.toll ≤ worker.toll + 9) :
    Spends p s { s with common := c', team := s.team.setIfInBounds i worker' } := by
  subst hcursor
  have htoll := toll_worker (p := p) here s.common worker'
  have hclaimed := hacc.lt_units (hacc.of_busy here (busy_of_position hold)).1
  refine Spends.finish hclaimed (hfollowed.standing i worker here unit _ hold) hnext ?_ (by omega)
  have hpositions := positions_worker (p := p) here rfl worker'
  simpa only [Worker.positions, hold, hnew, add_zero] using hpositions

end Spends

/-- A step of a worker with a prompt job uses something up. -/
theorem WorkerStep.spends (hacc : Accounted p h s) (hfits : p.units + p.threads < 2 ^ 64)
    (hfollowed : Followed p h s) (hcalls : p.job.CallsOnly p.units Prompt) {i : Nat}
    (here : s.team[i]? = some worker) (hserves : worker.Serves)
    (hlock : ∀ phase, worker.phase? = some phase → phase.holds = true →
      ∀ waiting, s.caller ≠ .waiting (.examining waiting))
    (hstep : WorkerStep p s.common (workerThread i) choice worker c' worker') :
    Spends p s { s with common := c', team := s.team.setIfInBounds i worker' } := by
  have hlt := hacc.cursor_lt here hstep.ne_stopped
  have hsucc := Accounted.cursor_succ hlt hfits
  cases hstep with
  | halt _ | goOn _ =>
      refine Spends.of_toll here rfl rfl ?_
      simp [Worker.toll]
  | claim some_left =>
      have htoll := toll_worker (p := p) here { s.common with cursor := s.common.cursor + 1 }
        (.running s.common.cursor.toNat (p.job.start s.common.cursor.toNat))
      have hset := total_set Worker.positions here
        (.running s.common.cursor.toNat (p.job.start s.common.cursor.toNat))
      simp only [Worker.toll] at htoll
      simp only [Worker.positions, Worker.position?, add_zero] at hset
      refine Spends.toll ?_ (by omega)
      simp only [Plan.positions]
      rw [hsucc, unclaimed_succ some_left, hset]
      abel
  | exhaust none_left =>
      have htoll := toll_worker (p := p) here { s.common with cursor := s.common.cursor + 1 }
        .stopped
      have hset := total_set Worker.positions here .stopped
      simp only [Worker.toll] at htoll
      simp only [Worker.positions, Worker.position?, add_zero] at hset
      refine Spends.toll ?_ (by omega)
      simp only [Plan.positions]
      rw [hsucc, unclaimed_of_le none_left, unclaimed_of_le (by omega), hset]
  | succeed unit state outcome next _ | fail unit state outcome failure next _ =>
      exact Spends.of_finish hacc hfollowed here rfl rfl rfl next (by simp [Worker.toll, callToll])
  | access unit state act next =>
      refine Spends.of_follow hacc hfollowed here rfl rfl rfl (.access next s.common.shared) ?_
      simp [Worker.toll]
  | unblock unit state state' next _ =>
      refine Spends.of_follow hacc hfollowed here rfl rfl rfl (.unblock next) ?_
      simp [Worker.toll]
  | call unit state call resume next =>
      refine Spends.of_follow hacc hfollowed here rfl rfl rfl (.call next) ?_
      simp only [Worker.toll, Position.fee]
      omega
  | callStep unit call resume advance _ =>
      have hprompt := hfollowed.permitted hacc hcalls here
      refine Spends.of_toll here rfl rfl ?_
      exact Advance.toll (Or.inl hprompt) hserves (hlock _ rfl) advance _ _
  | callReturn unit call reply resume advance =>
      have hprompt := hfollowed.permitted hacc hcalls here
      have hless :=
        Advance.toll (Or.inl hprompt) hserves (hlock _ rfl) advance p.threads s.team.size
      refine Spends.of_follow hacc hfollowed here rfl rfl rfl
        (.reply (advance.serves hserves) resume) ?_
      simp only [Worker.toll, callToll] at hless ⊢
      omega
  | failStep unit advance _ | failReturn unit reply advance =>
      obtain ⟨failure, hserves⟩ := hserves
      refine Spends.of_toll here rfl rfl ?_
      exact Advance.toll (Or.inr ⟨failure, rfl⟩) hserves (hlock _ rfl) advance _ _

/-- Every step of a thread uses something up, if the units make prompt calls and nobody else calls
the latch. Only a wake-up for no reason is free. -/
theorem Step.spends (hacc : Accounted p h s) (hfits : p.units + p.threads < 2 ^ 64)
    (hfollowed : Followed p h s) (hserving : Serving p refusing s)
    (horder : Latch.Orderly s.common.latch (p.table s)) (hcalls : p.job.CallsOnly p.units Prompt)
    (hwithin : label.Within refusing) (hthread : ∀ nanoseconds, label ≠ .tick nanoseconds)
    (hspurious : label ≠ .caller .spurious) (hstep : Step p s label s') : Spends p s s' := by
  cases hstep with
  | tick nanoseconds => exact absurd rfl (hthread nanoseconds)
  | @caller choice s' hstep =>
      have hchoice : choice ≠ .spurious := fun heq => hspurious (by rw [heq])
      refine Spends.toll ?_ (hstep.toll hacc hserving.caller hchoice)
      generalize s.caller = caller at hstep
      cases hstep <;> simp [Plan.positions, Worker.positions, Worker.position?]
  | refuse text starting missing => exact Spends.toll rfl (toll_refuse starting missing text)
  | worker index here hstep =>
      refine hstep.spends hacc hfits hfollowed hcalls here
        (hserving.workers _ (Array.mem_of_getElem? here)) ?_
      intro phase hphase hholds waiting hcaller
      have hworker : (p.table s).holds (workerThread index) = true := by
        rw [Latch.Table.holds, table_worker_phase hacc here, hphase]
        exact hholds
      have hwaiter : (p.table s).holds callerThread = true := by
        rw [Latch.Table.holds, table_caller, hcaller]
        rfl
      exact Nat.succ_ne_zero index (horder.unique hworker hwaiter)
  | outside call => exact hwithin.elim
  | bystander index here _ =>
      rw [hserving.bystanders_empty] at here
      cases here

end Pool
end ApiSchema
