import ApiSchema.Proofs.Latch.Record

/-!
What the replies of a latch say about its record.

A waiter that has come to a result keeps the lock until it returns. So what it has seen is still
true when it returns: the arrivals are there and there is no failure, or the result is the failure
that is kept, or neither is there and the limit has passed.
-/

namespace ApiSchema
namespace Latch

/-- A failure that a wait makes itself: its limit has passed. -/
def RanOut (limit : Option Duration) (failure : Failure) : Prop :=
  ∃ elapsed bound, limit = some bound ∧ failure = .timeout elapsed bound ∧
    bound.nanoseconds ≤ elapsed.nanoseconds

/-- What a latch has to say for a thread that is about to return with a reply. -/
def Reply.Holds (l : Latch) : Call → Reply → Prop
  | .arrived, .counts slots properties => l.slots = slots ∧ l.properties = properties
  | .wait _, .released (.ok _) => l.failure = none ∧ l.isComplete = true
  | .wait limit, .released (.error failure) =>
    l.expected ≠ 0 ∧ (l.failure = some failure ∨
      l.isOpen = false ∧ l.cancelled = true ∧ RanOut limit failure)
  | _, _ => True

/-- What is known of a thread that has come to a phase of a call: a waiter has something to wait
for, one woken by its limit is past it, one that gives up has found the latch shut and has
cancelled, and a reply is true. -/
def Phase.Grounded (l : Latch) (now : Nat) (call : Call) : Phase → Prop
  | .locking _ | .examining _ | .sleeping _ => l.expected ≠ 0
  | .waking waiting expired | .resuming waiting expired => l.expected ≠ 0 ∧
    (expired = true → ∀ limit, waiting.limit = some limit →
      waiting.start + limit.nanoseconds ≤ now)
  | .expiring start limit =>
    l.isOpen = false ∧ l.cancelled = true ∧ start + limit.nanoseconds ≤ now
  | .releasing reply => reply.Holds l call
  | _ => True

variable {l l' : Latch} {me : Thread} {now : Nat} {choice : Choice} {phase phase' : Phase}
  {call : Call}

/-- A thread without the lock changes nothing that waiters look at. -/
theorem Advance.outside (h : Advance l me now choice phase l' phase')
    (hholds : phase.holds = false) :
    l'.failure = l.failure ∧ l'.slots = l.slots ∧ l'.properties = l.properties ∧
      l'.isOpen = l.isOpen := by
  have hfailure : l'.failure = l.failure := by
    apply h.failure_eq
    rintro failure rfl
    cases hholds
  obtain ⟨hslots, hproperties⟩ : l'.slots = l.slots ∧ l'.properties = l.properties := by
    apply h.counts_eq
    rintro kind rfl
    cases hholds
  refine ⟨hfailure, hslots, hproperties, ?_⟩
  rw [isOpen, isOpen, isComplete, isComplete, arrivals, arrivals, hfailure, hslots, hproperties,
    h.expected_eq]

/-- A thread that has been woken by its limit has a reason to be. -/
theorem Phase.grounded_of_locked? {next : Phase} (h : phase.locked? = some next)
    (hgrounded : phase.Grounded l now call) :
    next.Grounded { l with holder := some me } now call := by
  cases phase with
  | entering call' => cases call' <;> cases h <;> trivial
  | locking waiting | waking waiting expired =>
      cases h
      exact hgrounded
  | _ => cases h

/-- The step of a thread leaves it with what is known of it. -/
theorem Advance.grounded (h : Advance l me now choice phase l' phase')
    (hserves : phase.Serves call) (hgrounded : phase.Grounded l now call) :
    phase'.Grounded l' now call := by
  cases h with
  | lock free locked => exact Phase.grounded_of_locked? locked hgrounded
  | await limit some_expected => exact some_expected
  | park waiting _ _ => exact hgrounded
  | retry waiting expired _ => exact hgrounded.1
  | read =>
      cases call with
      | arrived => exact ⟨rfl, rfl⟩
      | _ => exact hserves.elim
  | refuse waiting failure failed =>
      cases call with
      | wait limit => exact ⟨hgrounded, Or.inl failed⟩
      | _ => exact hserves.elim
  | allow waiting unfailed complete =>
      cases call with
      | wait limit => exact ⟨unfailed, complete⟩
      | _ => exact hserves.elim
  | expire waiting limit limited shut => exact ⟨shut, rfl, hgrounded.2 rfl limit limited⟩
  | giveUp start limit =>
      obtain ⟨hshut, hcancelled, hdue⟩ := hgrounded
      cases call with
      | wait limit' =>
          have hmissing := (isOpen_eq_false_iff.mp hshut).2
          refine ⟨Nat.ne_zero_of_lt hmissing, Or.inr ⟨hshut, hcancelled, ?_⟩⟩
          exact ⟨_, limit, hserves, rfl, Nat.le_sub_of_add_le' hdue⟩
      | _ => exact hserves.elim
  | wake waiting _ | stir waiting _ => exact ⟨hgrounded, nofun⟩
  | alarm waiting limit limited parked due =>
      refine ⟨hgrounded, fun _ limit' hlimit => ?_⟩
      rw [limited] at hlimit
      cases hlimit
      exact due
  | count kind incomplete | notify =>
      cases call with
      | signal kind' => trivial
      | fail failure => trivial
      | _ => exact hserves.elim
  | _ => trivial

/-- What is known of a thread stays true while others step, as long as one of them has the lock. -/
theorem Phase.Grounded.outside {other : Phase} (hgrounded : other.Grounded l now call)
    (h : Advance l me now choice phase l' phase')
    (hlock : other.holds = true → phase.holds = false) : other.Grounded l' now call := by
  have hexpected := h.expected_eq
  cases other with
  | locking waiting | examining waiting | sleeping waiting =>
      rw [Phase.Grounded, hexpected]
      exact hgrounded
  | waking waiting expired | resuming waiting expired =>
      rw [Phase.Grounded, hexpected]
      exact hgrounded
  | expiring start limit =>
      obtain ⟨hshut, hcancelled, hdue⟩ := hgrounded
      obtain ⟨_, _, _, hopen⟩ := h.outside (hlock rfl)
      exact ⟨hopen.trans hshut, h.cancelled_mono hcancelled, hdue⟩
  | releasing reply =>
      obtain ⟨hfailure, hslots, hproperties, hopen⟩ := h.outside (hlock rfl)
      have hcomplete : l'.isComplete = l.isComplete := by
        rw [isComplete, isComplete, arrivals, arrivals, hslots, hproperties, hexpected]
      cases call with
      | arrived =>
          cases reply with
          | counts slots properties =>
              exact ⟨hslots.trans hgrounded.1, hproperties.trans hgrounded.2⟩
          | _ => trivial
      | wait limit =>
          cases reply with
          | released result =>
              cases result with
              | ok value => exact ⟨hfailure.trans hgrounded.1, hcomplete.trans hgrounded.2⟩
              | error failure =>
                  obtain ⟨hneeded, hkept | ⟨hshut, hcancelled, hran⟩⟩ := hgrounded
                  · exact ⟨hexpected ▸ hneeded, Or.inl (hfailure.trans hkept)⟩
                  · exact ⟨hexpected ▸ hneeded,
                      Or.inr ⟨hopen.trans hshut, h.cancelled_mono hcancelled, hran⟩⟩
          | _ => trivial
      | _ => trivial
  | _ => trivial

/-- Time does not take back what is known of a thread. -/
theorem Phase.Grounded.later (hgrounded : phase.Grounded l now call) (nanoseconds : Nat) :
    phase.Grounded l (now + nanoseconds) call := by
  cases phase with
  | waking waiting expired | resuming waiting expired =>
      refine ⟨hgrounded.1, fun hexpired limit hlimit => ?_⟩
      exact Nat.le_add_right_of_le (hgrounded.2 hexpired limit hlimit)
  | expiring start limit =>
      obtain ⟨hshut, hcancelled, hdue⟩ := hgrounded
      exact ⟨hshut, hcancelled, Nat.le_add_right_of_le hdue⟩
  | _ => exact hgrounded

namespace Callers

def Grounded (r : Record) (s : Callers) : Prop :=
  ∀ (t : Thread) (phase : Phase) (call : Call), s.threads[t]? = some phase →
    r.calls[t]? = some call → phase.Grounded s.latch s.clock call

/-- Of two threads, one is without the lock. -/
theorem holds_eq_false {s : Callers} (h : Orderly s.latch s.table) {t t' : Thread}
    {phase phase' : Phase} (hphase : s.threads[t]? = some phase)
    (hphase' : s.threads[t']? = some phase') (hne : t' ≠ t) (hholds : phase'.holds = true) :
    phase.holds = false := by
  by_contra hnot
  rw [Bool.not_eq_false] at hnot
  have hmine : s.table.holds t = true := by simp [Table.holds, table, hphase, hnot]
  have hother : s.table.holds t' = true := by simp [Table.holds, table, hphase', hholds]
  exact hne (h.unique hother hmine)

theorem Grounded.step {r : Record} {s s' : Callers} {event : Event} (h : Grounded r s)
    (hcalling : Calling r s) (horderly : Orderly s.latch s.table)
    (hstep : s.step event = some s') : Grounded (r ++ s.deeds s' event) s' := by
  cases event with
  | tick nanoseconds =>
      cases hstep
      rw [deeds, List.append_nil]
      exact fun t phase call hphase hcall => (h t phase call hphase hcall).later nanoseconds
  | begin call =>
      cases hstep
      intro t phase call' hphase hcall
      by_cases hlast : t = s.threads.size
      · subst hlast
        rw [Array.getElem?_push_size] at hphase
        cases hphase
        trivial
      · rw [Array.getElem?_push, if_neg hlast] at hphase
        have hlt : t < r.calls.length :=
          hcalling.length ▸ (Array.getElem?_eq_some_iff.mp hphase).1
        rw [Record.calls_append, List.getElem?_append_left hlt] at hcall
        exact h t phase call' hphase hcall
  | move thread choice =>
      obtain ⟨phase, phase', hphase, _, hadvance, htable, hclock, _, hdeeds⟩ :=
        step_move_deeds hstep
      intro t next call hnext hcall
      rw [hdeeds, Record.calls_append, Phase.calls_deeds, List.append_nil] at hcall
      rw [hclock]
      change s'.table t = some next at hnext
      rw [htable] at hnext
      by_cases ht : t = thread
      · subst ht
        rw [Function.update_self] at hnext
        cases hnext
        obtain ⟨call', hcall', hserves⟩ := hcalling.serves t phase hphase
        rw [hcall] at hcall'
        cases hcall'
        exact hadvance.grounded hserves (h t phase call hphase hcall)
      · rw [Function.update_of_ne ht] at hnext
        exact (h t next call hnext hcall).outside hadvance fun hholds =>
          holds_eq_false horderly hphase hnext ht hholds

theorem Run.grounded {expected : Nat} {r : Record} {s : Callers}
    (h : Run { latch := { expected := expected } } r s) : Grounded r s := by
  induction h with
  | start => exact fun t phase call hphase => by simp at hphase
  | step event before next ih => exact ih.step before.calling before.reachable.orderly next

end Callers

/-- What the reply to a call says about the record at the moment at which it is given. A wait is let
through when the arrivals are there and no failure is, it is refused with the first failure, it
gives up past its limit with neither there and the flag up, and it panics when the clock cannot name
the instant at which it would give up. -/
def Reply.Justified (expected : Nat) (r : Record) (l : Latch) (now : Nat) : Call → Reply → Prop
  | .signal _, .done | .fail _, .done | .cancel, .done => True
  | .isCancelled, .flag cancelled => cancelled = l.cancelled
  | .arrived, .counts slots properties =>
    slots.toNat = r.arrivals .slot ∧ properties.toNat = r.arrivals .property
  | .wait _, .released (.ok _) => expected = 0 ∨ r.failures = [] ∧ expected ≤ r.total
  | .wait limit, .released (.error failure) => expected ≠ 0 ∧
      (r.failures.head? = some failure ∨
        r.failures = [] ∧ r.total < expected ∧ l.cancelled = true ∧ RanOut limit failure)
  | .wait limit, .panicked => expected ≠ 0 ∧ overflows now limit = true
  | _, _ => False

namespace Callers

/-- What a latch has to say for a reply, its record justifies. -/
theorem Run.justified_of_holds {expected : Nat} {r : Record} {s : Callers}
    (h : Run { latch := { expected := expected } } r s) (hfew : r.total < 2 ^ 64) {call : Call}
    {reply : Reply} (hserves : (Phase.releasing reply).Serves call)
    (hholds : reply.Holds s.latch call) (now : Nat) :
    reply.Justified expected r s.latch now call := by
  have hexpected : s.latch.expected = expected := h.reachable.expected_eq
  obtain ⟨hslots, hproperties, htotal⟩ := h.counts hfew
  have hfailure := h.remembers.failure
  cases call with
  | signal kind | fail failure =>
      cases hserves
      trivial
  | cancel | isCancelled => exact hserves.elim
  | arrived =>
      obtain ⟨slots, properties, rfl⟩ := hserves
      obtain ⟨rfl, rfl⟩ := hholds
      exact ⟨hslots, hproperties⟩
  | wait limit =>
      obtain ⟨result, rfl⟩ := hserves
      have hcomplete : s.latch.isComplete = true ↔ expected ≤ r.total := by
        rw [isComplete, hexpected, htotal, decide_eq_true_iff]
      cases result with
      | ok value =>
          obtain ⟨hunfailed, hall⟩ := hholds
          rw [hfailure, List.head?_eq_none_iff] at hunfailed
          exact Or.inr ⟨hunfailed, hcomplete.mp hall⟩
      | error failure =>
          obtain ⟨hneeded, hkept | ⟨hshut, hcancelled, hran⟩⟩ := hholds
          · exact ⟨hexpected ▸ hneeded, Or.inl (hfailure ▸ hkept)⟩
          · obtain ⟨hunfailed, hmissing⟩ := isOpen_eq_false_iff.mp hshut
            rw [hfailure, List.head?_eq_none_iff] at hunfailed
            rw [hexpected, htotal] at hmissing
            exact ⟨hexpected ▸ hneeded, Or.inr ⟨hunfailed, hmissing, hcancelled, hran⟩⟩

/-- A call returns with a reply that its record justifies. -/
theorem Run.justified {expected : Nat} {r : Record} {s s' : Callers}
    (h : Run { latch := { expected := expected } } r s) (hfew : r.total < 2 ^ 64) {t : Thread}
    {choice : Choice} (hstep : s.step (.move t choice) = some s') {reply : Reply}
    (hreply : s'.threads[t]? = some (.finished reply)) :
    ∃ call, r.calls[t]? = some call ∧ reply.Justified expected r s'.latch s'.clock call := by
  obtain ⟨phase, phase', hphase, hphase', hadvance, _, hclock, _, _⟩ := step_move_deeds hstep
  rw [hreply] at hphase'
  cases hphase'
  obtain ⟨call, hcall, hserves⟩ := h.calling.serves t phase hphase
  have hgrounded := h.grounded t phase call hphase hcall
  have hexpected : s.latch.expected = expected := h.reachable.expected_eq
  generalize s'.latch = l' at hadvance ⊢
  refine ⟨call, hcall, ?_⟩
  rw [hclock]
  cases hadvance with
  | lock free locked => exact absurd locked (phase.locked?_ne_finished _)
  | cancel =>
      cases hserves
      trivial
  | peek =>
      cases hserves
      rfl
  | pass limit none_expected =>
      cases hserves
      exact Or.inl (hexpected ▸ none_expected)
  | overflow limit some_expected beyond =>
      cases hserves
      exact ⟨hexpected ▸ some_expected, beyond⟩
  | release reply => exact h.justified_of_holds hfew hserves hgrounded s.clock

end Callers

end Latch
end ApiSchema
