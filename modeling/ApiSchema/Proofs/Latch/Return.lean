import ApiSchema.Proofs.Latch.Reply

/-!
Waits that return without sleeping, and the account that a record gives of a latch.

A wait that comes for the lock after a failure has been recorded, and one that has the lock while
the latch is open, can come to one result only. It does not sleep: it takes at most three steps of
its own, each of which it can take as soon as no other thread has the lock, and no thread keeps the
lock for long.

A wait reads the clock before it comes for the lock. If the clock cannot name the instant at which
it would give up, it panics there and then, whatever the latch has to say.
-/

namespace ApiSchema
namespace Latch

/-- The result that a latch has for a waiter that looks at it: a failure comes before completion. -/
def verdict? (l : Latch) : Option (Except Failure Unit) :=
  match l.failure with
  | some failure => some (.error failure)
  | none => if l.isComplete then some (.ok ()) else none

/-- A waiter that can come to one result only, with the number of its steps until it has returned.
Without the lock, nothing but a failure is sure to be what it finds. -/
inductive Phase.Bound (l : Latch) : Except Failure Unit → Nat → Phase → Prop
  | locking (waiting : Waiting) {failure : Failure} (failed : l.failure = some failure) :
      Bound l (.error failure) 3 (.locking waiting)
  | resuming (waiting : Waiting) (expired : Bool) {result : Except Failure Unit}
      (verdict : l.verdict? = some result) : Bound l result 3 (.resuming waiting expired)
  | examining (waiting : Waiting) {result : Except Failure Unit}
      (verdict : l.verdict? = some result) : Bound l result 2 (.examining waiting)
  | releasing (result : Except Failure Unit) : Bound l result 1 (.releasing (.released result))
  | finished (result : Except Failure Unit) : Bound l result 0 (.finished (.released result))

variable {l l' : Latch} {me : Thread} {now : Nat} {choice : Choice} {phase phase' : Phase}
  {result : Except Failure Unit} {left : Nat}

theorem verdict?_of_failure {failure : Failure} (h : l.failure = some failure) :
    l.verdict? = some (.error failure) := by
  simp [verdict?, h]

theorem isOpen_of_verdict? (h : l.verdict? = some result) : l.isOpen = true := by
  cases hfailure : l.failure with
  | some failure => simp [isOpen, hfailure]
  | none =>
      cases hcomplete : l.isComplete with
      | true => simp [isOpen, hcomplete]
      | false => simp [verdict?, hfailure, hcomplete] at h

/-- A thread without the lock leaves the verdict as it is. -/
theorem Advance.verdict?_eq (h : Advance l me now choice phase l' phase')
    (hholds : phase.holds = false) : l'.verdict? = l.verdict? := by
  obtain ⟨hfailure, hslots, hproperties, _⟩ := h.outside hholds
  have hcomplete : l'.isComplete = l.isComplete := by
    rw [isComplete, isComplete, arrivals, arrivals, hslots, hproperties, h.expected_eq]
  rw [verdict?, verdict?, hfailure, hcomplete]

/-- Each step of a bound waiter brings it closer to its return. -/
theorem Phase.Bound.advance (hbound : phase.Bound l result left)
    (h : Advance l me now choice phase l' phase') :
    ∃ left', left = left' + 1 ∧ phase'.Bound l' result left' := by
  cases hbound with
  | locking waiting failed =>
      cases h with
      | lock free locked =>
          cases locked
          exact ⟨2, rfl, Phase.Bound.examining _ (verdict?_of_failure failed)⟩
  | resuming waiting expired verdict =>
      cases h with
      | lock free locked => cases locked
      | expire _ limit limited shut =>
          rw [isOpen_of_verdict? verdict] at shut
          cases shut
      | retry _ _ reason => exact ⟨2, rfl, Phase.Bound.examining _ verdict⟩
  | examining waiting verdict =>
      cases h with
      | lock free locked => cases locked
      | refuse _ failure failed =>
          rw [verdict?_of_failure failed] at verdict
          cases verdict
          exact ⟨1, rfl, Phase.Bound.releasing _⟩
      | allow _ unfailed complete =>
          rw [verdict?, unfailed, complete] at verdict
          cases verdict
          exact ⟨1, rfl, Phase.Bound.releasing _⟩
      | park _ unfailed incomplete =>
          rw [verdict?, unfailed, incomplete] at verdict
          cases verdict
  | releasing result =>
      cases h with
      | lock free locked => cases locked
      | release _ => exact ⟨0, rfl, Phase.Bound.finished _⟩
  | finished result =>
      cases h with
      | lock free locked => cases locked

/-- A bound waiter stays bound while others step. -/
theorem Phase.Bound.outside {other : Phase} (hbound : other.Bound l result left)
    (h : Advance l me now choice phase l' phase')
    (hlock : other.holds = true → phase.holds = false) : other.Bound l' result left := by
  cases hbound with
  | locking waiting failed => exact Phase.Bound.locking waiting (h.failure_mono failed)
  | resuming waiting expired verdict =>
      exact Phase.Bound.resuming waiting expired ((h.verdict?_eq (hlock rfl)).trans verdict)
  | examining waiting verdict =>
      exact Phase.Bound.examining waiting ((h.verdict?_eq (hlock rfl)).trans verdict)
  | releasing result => exact Phase.Bound.releasing result
  | finished result => exact Phase.Bound.finished result

/-- A bound waiter does not sleep. -/
theorem Phase.Bound.ready (hbound : phase.Bound l result (left + 1)) : phase.Ready := by
  cases hbound <;> trivial

theorem Phase.Bound.le_three (hbound : phase.Bound l result left) : left ≤ 3 := by
  cases hbound <;> decide

theorem Phase.Bound.eq_finished (hbound : phase.Bound l result 0) :
    phase = .finished (.released result) := by
  cases hbound
  rfl

theorem Phase.Bound.of_finished {reply : Reply}
    (hbound : (Phase.finished reply).Bound l result left) : reply = .released result := by
  cases hbound
  rfl

/-- The number of steps until a thread that has the lock gives it up. -/
def Phase.hold : Phase → Nat
  | .recording _ => 4
  | .counting _ | .flagging | .resuming _ _ => 3
  | .notifying | .reading | .examining _ | .expiring _ _ => 2
  | .releasing _ => 1
  | _ => 0

/-- Each step of a thread that has the lock brings it closer to giving it up. -/
theorem Advance.hold (h : Advance l me now choice phase l' phase') (hholds : phase.holds = true) :
    l'.holder = none ∨ l'.holder = l.holder ∧ phase'.holds = true ∧ phase'.hold < phase.hold := by
  cases h with
  | lock free locked =>
      rw [(Phase.holds_of_locked? locked).2] at hholds
      cases hholds
  | park _ _ _ | release _ => exact Or.inl rfl
  | countLast kind _ | count kind _ =>
      exact Or.inr ⟨by cases kind <;> rfl, rfl, by simp [Phase.hold]⟩
  | record failure =>
      refine Or.inr ⟨?_, rfl, by simp [Phase.hold]⟩
      cases hfailure : l.failure <;> simp [Latch.record, hfailure]
  | flag | notify | read | refuse _ _ _ | allow _ _ _ | expire _ _ _ _ | retry _ _ _ | giveUp _ _ =>
      exact Or.inr ⟨rfl, rfl, by simp [Phase.hold]⟩
  | cancel | peek | pass _ _ | overflow _ _ _ | await _ _ _ | wake _ _ | stir _ _
  | alarm _ _ _ _ _ => cases hholds

theorem Phase.ready_of_holds (h : phase.holds = true) : phase.Ready := by
  cases phase with
  | sleeping waiting | finished reply => cases h
  | _ => trivial

namespace Callers

/-- The steps of a run, counted for one thread. -/
inductive Steps (t : Thread) (start : Callers) : Nat → Callers → Prop
  | start : Steps t start 0 start
  | own {n : Nat} {s s' : Callers} (choice : Choice) (before : Steps t start n s)
      (next : s.step (.move t choice) = some s') : Steps t start (n + 1) s'
  | other {n : Nat} {s s' : Callers} (event : Event) (not_own : ∀ choice, event ≠ .move t choice)
      (before : Steps t start n s) (next : s.step event = some s') : Steps t start n s'

theorem Steps.reachable {t : Thread} {start s : Callers} {n : Nat} (h : Steps t start n s) :
    Reachable start s := by
  induction h with
  | start => exact Reachable.start
  | own choice _ next ih => exact ih.step _ next
  | other event _ _ next ih => exact ih.step event next

theorem Steps.trans {t : Thread} {start s s' : Callers} {n m : Nat} (h : Steps t start n s)
    (h' : Steps t s m s') : Steps t start (n + m) s' := by
  induction h' with
  | start => exact h
  | own choice _ next ih => exact ih.own choice next
  | other event hevent _ next ih => exact ih.other event hevent next

theorem Reachable.exists_steps {start s : Callers} (h : Reachable start s) (t : Thread) :
    ∃ n, Steps t start n s := by
  induction h with
  | start => exact ⟨0, Steps.start⟩
  | step event _ next ih =>
      obtain ⟨n, hsteps⟩ := ih
      by_cases hown : ∃ choice, event = .move t choice
      · obtain ⟨choice, rfl⟩ := hown
        exact ⟨n + 1, hsteps.own choice next⟩
      · exact ⟨n, hsteps.other event (fun choice heq => hown ⟨choice, heq⟩) next⟩

/-- A thread that is a bound waiter. -/
def Binds (s : Callers) (t : Thread) (result : Except Failure Unit) (left : Nat) : Prop :=
  ∃ phase, s.threads[t]? = some phase ∧ phase.Bound s.latch result left

variable {s s' start : Callers} {t : Thread}

theorem Binds.own (h : s.Binds t result left) (hstep : s.step (.move t choice) = some s') :
    ∃ left', left = left' + 1 ∧ s'.Binds t result left' := by
  obtain ⟨phase, hphase, hbound⟩ := h
  obtain ⟨phase₁, phase', hphase₁, hphase', hadvance, _⟩ := step_move_deeds hstep
  rw [hphase] at hphase₁
  cases hphase₁
  obtain ⟨left', hleft, hbound'⟩ := hbound.advance hadvance
  exact ⟨left', hleft, phase', hphase', hbound'⟩

theorem Binds.other (h : s.Binds t result left) (horderly : Orderly s.latch s.table) {event : Event}
    (hevent : ∀ choice, event ≠ .move t choice) (hstep : s.step event = some s') :
    s'.Binds t result left := by
  obtain ⟨other, hother, hbound⟩ := h
  cases event with
  | tick nanoseconds =>
      cases hstep
      exact ⟨other, hother, hbound⟩
  | begin call =>
      cases hstep
      have hlt : t < s.threads.size := (Array.getElem?_eq_some_iff.mp hother).1
      refine ⟨other, ?_, hbound⟩
      rw [Array.getElem?_push, if_neg (Nat.ne_of_lt hlt)]
      exact hother
  | move thread choice =>
      obtain ⟨phase, phase', hphase, _, hadvance, htable, _⟩ := step_move_deeds hstep
      have hne : t ≠ thread := fun heq => hevent choice (heq ▸ rfl)
      refine ⟨other, ?_, ?_⟩
      · change s'.table t = some other
        rw [htable, Function.update_of_ne hne]
        exact hother
      · exact hbound.outside hadvance fun hholds =>
          holds_eq_false horderly hphase hother hne hholds

/-- A bound waiter stays bound, and each of its steps is one less to come. -/
theorem Binds.steps {n : Nat} (h : s.Binds t result left)
    (horderly : ∀ s₁, Reachable s s₁ → Orderly s₁.latch s₁.table) (hsteps : Steps t s n s') :
    ∃ left', left = left' + n ∧ s'.Binds t result left' := by
  induction hsteps with
  | start => exact ⟨left, rfl, h⟩
  | own choice before next ih =>
      obtain ⟨left₁, hleft₁, hbinds₁⟩ := ih
      obtain ⟨left₂, hleft₂, hbinds₂⟩ := hbinds₁.own next
      exact ⟨left₂, by omega, hbinds₂⟩
  | other event hevent before next ih =>
      obtain ⟨left₁, hleft₁, hbinds₁⟩ := ih
      exact ⟨left₁, hleft₁, hbinds₁.other (horderly _ before.reachable) hevent next⟩

theorem step_of_advance {phase : Phase} {l : Latch} {phase' : Phase}
    (hphase : s.threads[t]? = some phase)
    (hadvance : s.latch.advance t s.clock phase choice = some (l, phase')) :
    ∃ s', s.step (.move t choice) = some s' ∧ s'.latch = l ∧ s'.threads[t]? = some phase' := by
  have hlt : t < s.threads.size := (Array.getElem?_eq_some_iff.mp hphase).1
  exact ⟨{ s with latch := l, threads := s.threads.setIfInBounds t phase' },
    by simp [step, hphase, hadvance], rfl, by simp [hlt]⟩

/-- A bound waiter can go on when no other thread has the lock. -/
theorem Binds.step (h : s.Binds t result (left + 1)) (horderly : Orderly s.latch s.table)
    (hlock : s.latch.holder = none ∨ s.latch.holder = some t) :
    ∃ s', s.step (.move t .proceed) = some s' := by
  obtain ⟨phase, hphase, hbound⟩ := h
  have hholds : phase.holds = true ∨ s.latch.holder = none := by
    rcases hlock with hfree | hmine
    · exact Or.inr hfree
    · have hholds := (horderly.held t).1 hmine
      simp only [Table.holds, table, hphase, Option.any_some] at hholds
      exact Or.inl hholds
  obtain ⟨l, phase', hadvance⟩ := advance_ready hbound.ready hholds t s.clock
  obtain ⟨s', hstep, _⟩ := step_of_advance hphase hadvance
  exact ⟨s', hstep⟩

/-- The thread that has the lock can go on until it has given it up. -/
theorem exists_free (horderly : ∀ s₁, Reachable s s₁ → Orderly s₁.latch s₁.table)
    {holder : Thread} (hne : t ≠ holder) (hholder : s.latch.holder = some holder) :
    ∃ s', Steps t s 0 s' ∧ s'.latch.holder = none := by
  have hheld := ((horderly s Reachable.start).held holder).1 hholder
  simp only [Table.holds, Option.any_eq_true] at hheld
  obtain ⟨phase, hphase, hholds⟩ := hheld
  -- by induction on the steps that the holder still has to take with the lock
  induction hrest : phase.hold using Nat.strongRecOn generalizing s phase with
  | _ rest ih =>
      obtain ⟨l, phase', hadvance⟩ :=
        advance_ready (Phase.ready_of_holds hholds) (Or.inl hholds) holder s.clock
      obtain ⟨s', hstep, _⟩ := step_of_advance hphase hadvance
      obtain ⟨phase₁, next, hphase₁, hnext, hstep₁, _⟩ := step_move_deeds hstep
      change s.threads[holder]? = some phase at hphase
      rw [hphase] at hphase₁
      cases hphase₁
      have hevent : ∀ choice, Event.move holder .proceed ≠ .move t choice := by
        intro choice heq
        cases heq
        exact hne rfl
      have hone : Steps t s 0 s' := Steps.start.other _ hevent hstep
      rcases hstep₁.hold hholds with hfree | ⟨hkept, hnext_holds, hless⟩
      · exact ⟨s', hone, hfree⟩
      · obtain ⟨s'', hsteps, hfree⟩ := ih next.hold (hrest ▸ hless)
          (fun s₁ h₁ => horderly s₁ (hone.reachable.trans h₁)) (hkept.trans hholder) next hnext
          hnext_holds rfl
        exact ⟨s'', by simpa using hone.trans hsteps, hfree⟩

/-- From every state that follows, a bound waiter can be brought to its return. -/
theorem Binds.exists_finished (h : s.Binds t result left)
    (horderly : ∀ s₁, Reachable s s₁ → Orderly s₁.latch s₁.table) :
    ∃ s', Reachable s s' ∧ s'.threads[t]? = some (.finished (.released result)) := by
  induction left generalizing s with
  | zero =>
      obtain ⟨phase, hphase, hbound⟩ := h
      exact ⟨s, Reachable.start, hbound.eq_finished ▸ hphase⟩
  | succ left ih =>
      obtain ⟨s₁, hsteps, hlock⟩ : ∃ s₁, Steps t s 0 s₁ ∧
          (s₁.latch.holder = none ∨ s₁.latch.holder = some t) := by
        cases hholder : s.latch.holder with
        | none => exact ⟨s, Steps.start, Or.inl hholder⟩
        | some holder =>
            by_cases hmine : t = holder
            · exact ⟨s, Steps.start, Or.inr (hmine ▸ hholder)⟩
            · obtain ⟨s₁, hsteps, hfree⟩ := exists_free horderly hmine hholder
              exact ⟨s₁, hsteps, Or.inl hfree⟩
      obtain ⟨left₁, hleft₁, hbinds₁⟩ := h.steps horderly hsteps
      obtain rfl : left₁ = left + 1 := hleft₁.symm
      obtain ⟨s₂, hstep⟩ := hbinds₁.step (horderly s₁ hsteps.reachable) hlock
      obtain ⟨left₂, hleft₂, hbinds₂⟩ := hbinds₁.own hstep
      obtain rfl : left = left₂ := Nat.succ.inj hleft₂
      have hreachable : Reachable s s₂ := hsteps.reachable.step _ hstep
      obtain ⟨s₃, hrest, hfinished⟩ :=
        ih hbinds₂ fun s₁ h₁ => horderly s₁ (hreachable.trans h₁)
      exact ⟨s₃, hreachable.trans hrest, hfinished⟩

/-- A wait that is going to return with a result, whatever else happens. -/
structure Comes (s : Callers) (t : Thread) (result : Except Failure Unit) : Prop where
  /-- It takes three more steps at most. -/
  soon : ∀ n s', Steps t s n s' → n ≤ 3
  /-- It can take the next one whenever no other thread has the lock. -/
  ready : ∀ s', Reachable s s' → s'.threads[t]? ≠ some (.finished (.released result)) →
    s'.latch.holder = none ∨ s'.latch.holder = some t →
      ∃ s'', s'.step (.move t .proceed) = some s''
  /-- Its return is always within reach. -/
  returns : ∀ s', Reachable s s' →
    ∃ s'', Reachable s' s'' ∧ s''.threads[t]? = some (.finished (.released result))
  /-- It does not return with anything else. -/
  only : ∀ s' reply, Reachable s s' → s'.threads[t]? = some (.finished reply) →
    reply = .released result

theorem Binds.comes (h : s.Binds t result left)
    (horderly : ∀ s₁, Reachable s s₁ → Orderly s₁.latch s₁.table) : s.Comes t result := by
  have hbinds : ∀ s', Reachable s s' → ∃ left', s'.Binds t result left' := by
    intro s' hreachable
    obtain ⟨n, hsteps⟩ := hreachable.exists_steps t
    obtain ⟨left', _, hbinds⟩ := h.steps horderly hsteps
    exact ⟨left', hbinds⟩
  refine ⟨?_, ?_, ?_, ?_⟩
  · intro n s' hsteps
    obtain ⟨left', hleft, _⟩ := h.steps horderly hsteps
    obtain ⟨phase, _, hbound⟩ := h
    have hthree := hbound.le_three
    omega
  · intro s' hreachable hunfinished hlock
    obtain ⟨left', hbinds'⟩ := hbinds s' hreachable
    cases left' with
    | zero =>
        obtain ⟨phase, hphase, hbound⟩ := hbinds'
        exact absurd (hbound.eq_finished ▸ hphase) hunfinished
    | succ left' => exact hbinds'.step (horderly s' hreachable) hlock
  · intro s' hreachable
    obtain ⟨left', hbinds'⟩ := hbinds s' hreachable
    exact hbinds'.exists_finished fun s₁ h₁ => horderly s₁ (hreachable.trans h₁)
  · intro s' reply hreachable hreply
    obtain ⟨left', phase, hphase, hbound⟩ := hbinds s' hreachable
    rw [hreply] at hphase
    cases hphase
    exact hbound.of_finished

end Callers

end Latch
end ApiSchema
