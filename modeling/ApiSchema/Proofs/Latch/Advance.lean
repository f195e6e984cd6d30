import ApiSchema.Latch.Call

/-!
The steps of calls on a latch, written out.

`Advance` has one constructor for each thing that a thread inside a call can do, with its guard and
its effect; `advance_cases` says that `Latch.advance` does nothing else. What a step leaves alone,
and which call a phase belongs to, is read off it here once and for all.
-/

namespace ApiSchema
namespace Latch

/-- Whether a waiter that looks at the latch is let through. -/
def isOpen (l : Latch) : Bool :=
  l.failure.isSome || l.isComplete

/-- The phase after taking the lock, for a phase that is about to take it. -/
def Phase.locked? : Phase → Option Phase
  | .entering (.signal kind) => some (.counting kind)
  | .entering (.fail failure) => some (.recording failure)
  | .entering .arrived => some .reading
  | .locking waiting => some (.examining waiting)
  | .waking waiting expired => some (.resuming waiting expired)
  | _ => none

/-- A call does not return with the lock in its hands. -/
theorem Phase.locked?_ne_finished (phase : Phase) (reply : Reply) :
    phase.locked? ≠ some (.finished reply) := by
  cases phase with
  | entering call => cases call <;> simp [locked?]
  | _ => simp [locked?]

/-- A call does something with the lock before giving it up. -/
theorem Phase.locked?_ne_releasing (phase : Phase) (reply : Reply) :
    phase.locked? ≠ some (.releasing reply) := by
  cases phase with
  | entering call => cases call <;> simp [locked?]
  | _ => simp [locked?]

/-- One step of thread `me` at time `now`, with the choice it takes. -/
inductive Advance (l : Latch) (me : Thread) (now : Nat) :
    Choice → Phase → Latch → Phase → Prop
  | lock {phase next : Phase} (free : l.holder = none) (locked : phase.locked? = some next) :
      Advance l me now .proceed phase { l with holder := some me } next
  | cancel : Advance l me now .proceed (.entering .cancel) l.cancel (.finished .done)
  | peek : Advance l me now .proceed (.entering .isCancelled) l (.finished (.flag l.cancelled))
  | pass (limit : Option Duration) (none_expected : l.expected = 0) :
      Advance l me now .proceed (.entering (.wait limit)) l (.finished (.released (.ok ())))
  | overflow (limit : Option Duration) (some_expected : l.expected ≠ 0)
      (beyond : overflows now limit = true) :
      Advance l me now .proceed (.entering (.wait limit)) l (.finished .panicked)
  | await (limit : Option Duration) (some_expected : l.expected ≠ 0)
      (within : overflows now limit = false) :
      Advance l me now .proceed (.entering (.wait limit)) l (.locking ⟨now, limit⟩)
  | countLast (kind : Signal) (complete : (l.count kind).isComplete = true) :
      Advance l me now .proceed (.counting kind) (l.count kind) .notifying
  | count (kind : Signal) (incomplete : (l.count kind).isComplete = false) :
      Advance l me now .proceed (.counting kind) (l.count kind) (.releasing .done)
  | record (failure : Failure) :
      Advance l me now .proceed (.recording failure) (l.record failure) .flagging
  | flag : Advance l me now .proceed .flagging l.cancel .notifying
  | notify : Advance l me now .proceed .notifying l.notifyAll (.releasing .done)
  | read : Advance l me now .proceed .reading l (.releasing (.counts l.slots l.properties))
  | refuse (waiting : Waiting) (failure : Failure) (failed : l.failure = some failure) :
      Advance l me now .proceed (.examining waiting) l
        (.releasing (.released (.error failure)))
  | allow (waiting : Waiting) (unfailed : l.failure = none) (complete : l.isComplete = true) :
      Advance l me now .proceed (.examining waiting) l (.releasing (.released (.ok ())))
  | park (waiting : Waiting) (unfailed : l.failure = none) (incomplete : l.isComplete = false) :
      Advance l me now .proceed (.examining waiting) (l.park me) (.sleeping waiting)
  | expire (waiting : Waiting) (limit : Duration) (limited : waiting.limit = some limit)
      (shut : l.isOpen = false) :
      Advance l me now .proceed (.resuming waiting true) l.cancel
        (.expiring waiting.start limit)
  | retry (waiting : Waiting) (expired : Bool)
      (reason : waiting.limit = none ∨ expired = false ∨ l.isOpen = true) :
      Advance l me now .proceed (.resuming waiting expired) l (.examining waiting)
  | giveUp (start : Nat) (limit : Duration) :
      Advance l me now .proceed (.expiring start limit) l
        (.releasing (.released (.error (.timeout ⟨now - start⟩ limit))))
  | release (reply : Reply) :
      Advance l me now .proceed (.releasing reply) l.release (.finished reply)
  | wake (waiting : Waiting) (notified : me ∉ l.parked) :
      Advance l me now .proceed (.sleeping waiting) l (.waking waiting false)
  | stir (waiting : Waiting) (parked : me ∈ l.parked) :
      Advance l me now .spurious (.sleeping waiting) (l.unpark me) (.waking waiting false)
  | alarm (waiting : Waiting) (limit : Duration) (limited : waiting.limit = some limit)
      (parked : me ∈ l.parked) (due : waiting.start + limit.nanoseconds ≤ now) :
      Advance l me now .expire (.sleeping waiting) (l.unpark me) (.waking waiting true)

variable {l l' : Latch} {me : Thread} {now : Nat} {choice : Choice} {phase phase' : Phase}

theorem acquire_eq_some {l l' : Latch} {me : Thread} (h : l.acquire me = some l') :
    l.holder = none ∧ l' = { l with holder := some me } := by
  unfold acquire at h
  cases hholder : l.holder with
  | none =>
      rw [hholder] at h
      exact ⟨rfl, (Option.some.inj h).symm⟩
  | some other =>
      rw [hholder] at h
      cases h

theorem advance_lock {next : Phase}
    (h : (l.acquire me).map (·, next) = some (l', phase'))
    (hlocked : phase.locked? = some next) :
    Advance l me now .proceed phase l' phase' := by
  obtain ⟨m, hacquire, heq⟩ := Option.map_eq_some_iff.mp h
  obtain ⟨hfree, rfl⟩ := acquire_eq_some hacquire
  obtain ⟨rfl, rfl⟩ := Prod.mk.inj heq
  exact Advance.lock hfree hlocked

theorem enter_cases {call : Call} (h : l.enter me now call = some (l', phase')) :
    Advance l me now .proceed (.entering call) l' phase' := by
  cases call with
  | signal kind => exact advance_lock h rfl
  | fail failure => exact advance_lock h rfl
  | arrived => exact advance_lock h rfl
  | cancel =>
      cases h
      exact Advance.cancel
  | isCancelled =>
      cases h
      exact Advance.peek
  | wait limit =>
      simp only [enter] at h
      split at h
      next hzero =>
        cases h
        exact Advance.pass limit hzero
      next hpos =>
        cases hbeyond : overflows now limit with
        | true =>
            rw [hbeyond, if_pos rfl] at h
            cases h
            exact Advance.overflow limit hpos hbeyond
        | false =>
            rw [hbeyond, if_neg Bool.false_ne_true] at h
            cases h
            exact Advance.await limit hpos hbeyond

theorem examine_cases (waiting : Waiting) :
    Advance l me now .proceed (.examining waiting) (l.examine me waiting).1
      (l.examine me waiting).2 := by
  unfold examine
  cases hfailure : l.failure with
  | some failure => exact Advance.refuse waiting failure hfailure
  | none =>
      cases hcomplete : l.isComplete with
      | true => exact Advance.allow waiting hfailure hcomplete
      | false => exact Advance.park waiting hfailure hcomplete

theorem resume_cases (waiting : Waiting) (expired : Bool) :
    Advance l me now .proceed (.resuming waiting expired) (l.resume waiting expired).1
      (l.resume waiting expired).2 := by
  unfold resume
  cases hlimit : waiting.limit with
  | none => exact Advance.retry waiting expired (Or.inl hlimit)
  | some limit =>
      cases expired with
      | false => exact Advance.retry waiting false (Or.inr (Or.inl rfl))
      | true =>
          cases hopen : l.isOpen with
          | true =>
              have hnot : (true && l.failure.isNone && !l.isComplete) = false := by
                cases hfailure : l.failure <;> simp_all [isOpen]
              simp only [hnot, Bool.false_eq_true, if_false]
              exact Advance.retry waiting true (Or.inr (Or.inr hopen))
          | false =>
              have hyes : (true && l.failure.isNone && !l.isComplete) = true := by
                cases hfailure : l.failure <;> simp_all [isOpen]
              simp only [hyes, if_true]
              exact Advance.expire waiting limit hlimit hopen

theorem wake_cases {waiting : Waiting}
    (h : l.wake me now waiting choice = some (l', phase')) :
    Advance l me now choice (.sleeping waiting) l' phase' := by
  cases choice with
  | proceed =>
      simp only [wake] at h
      split at h
      · cases h
      next hnotified =>
        cases h
        exact Advance.wake waiting hnotified
  | spurious =>
      simp only [wake] at h
      split at h
      next hparked =>
        cases h
        exact Advance.stir waiting hparked
      · cases h
  | expire =>
      simp only [wake] at h
      split at h
      next limit hlimit =>
        split at h
        next hdue =>
          cases h
          exact Advance.alarm waiting limit hlimit hdue.1 hdue.2
        · cases h
      · cases h

/-- A thread inside a call does nothing but the steps of `Advance`. -/
theorem advance_cases (h : l.advance me now phase choice = some (l', phase')) :
    Advance l me now choice phase l' phase' := by
  cases phase with
  | sleeping waiting => exact wake_cases h
  | entering call =>
      cases choice with
      | proceed => exact enter_cases h
      | spurious | expire => cases h
  | counting kind =>
      cases choice with
      | proceed =>
          cases hcomplete : (l.count kind).isComplete <;>
            simp only [advance, hcomplete, Bool.false_eq_true, if_true, if_false] at h <;> cases h
          · exact Advance.count kind hcomplete
          · exact Advance.countLast kind hcomplete
      | spurious | expire => cases h
  | locking waiting =>
      cases choice with
      | proceed => exact advance_lock h rfl
      | spurious | expire => cases h
  | waking waiting expired =>
      cases choice with
      | proceed => exact advance_lock h rfl
      | spurious | expire => cases h
  | examining waiting =>
      cases choice with
      | proceed =>
          obtain ⟨rfl, rfl⟩ := Prod.mk.inj (Option.some.inj h)
          exact examine_cases waiting
      | spurious | expire => cases h
  | resuming waiting expired =>
      cases choice with
      | proceed =>
          obtain ⟨rfl, rfl⟩ := Prod.mk.inj (Option.some.inj h)
          exact resume_cases waiting expired
      | spurious | expire => cases h
  | recording failure =>
      cases choice <;> cases h
      exact Advance.record failure
  | flagging =>
      cases choice <;> cases h
      exact Advance.flag
  | notifying =>
      cases choice <;> cases h
      exact Advance.notify
  | reading =>
      cases choice <;> cases h
      exact Advance.read
  | expiring start limit =>
      cases choice <;> cases h
      exact Advance.giveUp start limit
  | releasing reply =>
      cases choice <;> cases h
      exact Advance.release reply
  | finished reply => cases choice <;> cases h

namespace Advance

/-- No step begins a call. -/
theorem ne_entering (h : Advance l me now choice phase l' phase') (call : Call) :
    phase' ≠ .entering call := by
  cases h with
  | lock _ locked =>
      rintro rfl
      cases phase with
      | entering call' => cases call' <;> cases locked
      | _ => cases locked
  | _ => exact nofun

theorem expected_eq (h : Advance l me now choice phase l' phase') :
    l'.expected = l.expected := by
  cases h with
  | countLast kind _ => cases kind <;> rfl
  | count kind _ => cases kind <;> rfl
  | record failure => cases hfailure : l.failure <;> simp [Latch.record, hfailure]
  | _ => rfl

/-- Only a thread that records a failure changes the one that is recorded. -/
theorem failure_eq (h : Advance l me now choice phase l' phase')
    (hphase : ∀ failure, phase ≠ .recording failure) : l'.failure = l.failure := by
  cases h with
  | record failure => exact absurd rfl (hphase failure)
  | countLast kind _ => cases kind <;> rfl
  | count kind _ => cases kind <;> rfl
  | _ => rfl

/-- A recorded failure stays. -/
theorem failure_mono (h : Advance l me now choice phase l' phase') {failure : Failure}
    (hfailure : l.failure = some failure) : l'.failure = some failure := by
  cases h with
  | record other => simp [Latch.record, hfailure]
  | countLast kind _ => cases kind <;> exact hfailure
  | count kind _ => cases kind <;> exact hfailure
  | _ => exact hfailure

/-- Only a thread that counts changes the counts. -/
theorem counts_eq (h : Advance l me now choice phase l' phase')
    (hphase : ∀ kind, phase ≠ .counting kind) :
    l'.slots = l.slots ∧ l'.properties = l.properties := by
  cases h with
  | countLast kind _ => exact absurd rfl (hphase kind)
  | count kind _ => exact absurd rfl (hphase kind)
  | record failure => cases hfailure : l.failure <;> simp [Latch.record, hfailure]
  | _ => exact ⟨rfl, rfl⟩

theorem eq_count {kind : Signal} (h : Advance l me now choice (.counting kind) l' phase') :
    l' = l.count kind := by
  cases h with
  | lock free locked => cases locked
  | countLast _ _ => rfl
  | count _ _ => rfl

/-- The cancellation flag is never taken back. -/
theorem cancelled_mono (h : Advance l me now choice phase l' phase')
    (hcancelled : l.cancelled = true) : l'.cancelled = true := by
  cases h with
  | cancel | flag | expire _ _ _ _ => rfl
  | countLast kind _ => cases kind <;> exact hcancelled
  | count kind _ => cases kind <;> exact hcancelled
  | record failure => cases hfailure : l.failure <;> simp [Latch.record, hfailure, hcancelled]
  | _ => exact hcancelled

/-- What can raise the cancellation flag: a call to cancel, a failure, a wait that gives up. -/
theorem cancelled_cases (h : Advance l me now choice phase l' phase')
    (hcancelled : l'.cancelled = true) :
    l.cancelled = true ∨ phase = .entering .cancel ∨ phase = .flagging ∨
      ∃ start limit, phase' = .expiring start limit := by
  cases h with
  | cancel => exact Or.inr (Or.inl rfl)
  | flag => exact Or.inr (Or.inr (Or.inl rfl))
  | expire waiting limit _ _ => exact Or.inr (Or.inr (Or.inr ⟨_, limit, rfl⟩))
  | countLast kind _ => cases kind <;> exact Or.inl hcancelled
  | count kind _ => cases kind <;> exact Or.inl hcancelled
  | record failure =>
      left
      cases hfailure : l.failure <;> simpa [Latch.record, hfailure] using hcancelled
  | _ => exact Or.inl hcancelled

end Advance

/-- The phases that a call goes through. -/
def Phase.Serves : Call → Phase → Prop
  | call, .entering call' => call = call'
  | .signal kind, .counting kind' => kind = kind'
  | .fail failure, .recording failure' => failure = failure'
  | .fail _, .flagging => True
  | .signal _, .notifying | .fail _, .notifying => True
  | .signal _, .releasing reply | .fail _, .releasing reply => reply = .done
  | .arrived, .reading => True
  | .arrived, .releasing reply => ∃ slots properties, reply = .counts slots properties
  | .wait limit, .locking waiting | .wait limit, .examining waiting
  | .wait limit, .sleeping waiting | .wait limit, .waking waiting _
  | .wait limit, .resuming waiting _ => waiting.limit = limit
  | .wait limit, .expiring _ limit' => limit = some limit'
  | .wait _, .releasing reply => ∃ result, reply = .released result
  | call, .finished reply =>
    match call with
    | .signal _ | .fail _ | .cancel => reply = .done
    | .isCancelled => ∃ cancelled, reply = .flag cancelled
    | .arrived => ∃ slots properties, reply = .counts slots properties
    | .wait _ => (∃ result, reply = .released result) ∨ reply = .panicked
  | _, _ => False

/-- A call stays the same call from its first step to its reply. -/
theorem Advance.serves {call : Call} (h : Advance l me now choice phase l' phase')
    (hserves : phase.Serves call) : phase'.Serves call := by
  cases h with
  | lock free locked =>
      cases phase with
      | entering call' =>
          cases call' <;> cases locked <;> cases hserves <;> simp [Phase.Serves]
      | locking waiting =>
          cases locked
          cases call <;> exact hserves
      | waking waiting expired =>
          cases locked
          cases call <;> exact hserves
      | _ => cases locked
  | expire waiting limit limited _ =>
      cases call with
      | wait limit' => exact (Eq.symm hserves).trans limited
      | _ => exact hserves.elim
  | giveUp start limit =>
      cases call with
      | wait limit' => exact ⟨_, rfl⟩
      | _ => exact hserves.elim
  | read =>
      cases call with
      | arrived => exact ⟨_, _, rfl⟩
      | _ => exact hserves.elim
  | cancel | peek | pass limit _ | overflow limit _ _ | await limit _ _ =>
      cases hserves
      simp [Phase.Serves]
  | countLast kind _ | count kind _ | record failure | flag | notify =>
      cases call <;> first | exact hserves.elim | trivial
  | refuse waiting failure _ | allow waiting _ _ =>
      cases call with
      | wait limit => exact ⟨_, rfl⟩
      | _ => exact hserves.elim
  | park waiting _ _ | retry waiting _ _ | wake waiting _ | stir waiting _
  | alarm waiting _ _ _ _ =>
      cases call with
      | wait limit => exact hserves
      | _ => exact hserves.elim
  | release reply =>
      cases call with
      | wait limit => exact Or.inl hserves
      | cancel | isCancelled => exact hserves.elim
      | _ => exact hserves

end Latch
end ApiSchema
