import ApiSchema.Proofs.Latch.Advance
import ApiSchema.Latch.Callers
import Mathlib.Logic.Function.Basic

/-!
The order that calls keep on a latch: one thread at a time has the lock, and no waiter is left
asleep at an open latch once the lock is free.

A table gives the phase of every thread inside a call. `Orderly` is the invariant of a latch
together with such a table; every step of every call keeps it, whoever else is inside a call.
-/

namespace ApiSchema
namespace Latch

/-- Whether a thread in this phase has the lock. -/
def Phase.holds : Phase → Bool
  | .counting _ | .recording _ | .flagging | .notifying | .reading | .examining _
  | .resuming _ _ | .expiring _ _ | .releasing _ => true
  | .entering _ | .locking _ | .sleeping _ | .waking _ _ | .finished _ => false

/-- Whether a thread in this phase has the lock and will wake all waiters before giving it up. -/
def Phase.alerts : Phase → Bool
  | .flagging | .notifying => true
  | _ => false

/-- The phase of each thread that is inside a call. -/
abbrev Table := Thread → Option Phase

namespace Table

/-- Whether a thread has the lock. -/
def holds (table : Table) (t : Thread) : Bool :=
  (table t).any Phase.holds

def alerts (table : Table) (t : Thread) : Bool :=
  (table t).any Phase.alerts

@[simp] theorem holds_update (table : Table) (me t : Thread) (phase : Option Phase) :
    holds (Function.update table me phase) t =
      if t = me then phase.any Phase.holds else holds table t := by
  by_cases ht : t = me
  · subst ht
    simp [holds]
  · simp [holds, ht]

@[simp] theorem alerts_update (table : Table) (me t : Thread) (phase : Option Phase) :
    alerts (Function.update table me phase) t =
      if t = me then phase.any Phase.alerts else alerts table t := by
  by_cases ht : t = me
  · subst ht
    simp [alerts]
  · simp [alerts, ht]

theorem alerts_imp_holds {table : Table} {t : Thread} (h : alerts table t = true) :
    holds table t = true := by
  simp only [alerts, holds, Option.any_eq_true] at h ⊢
  obtain ⟨phase, hphase, halerts⟩ := h
  refine ⟨phase, hphase, ?_⟩
  cases phase <;> simp_all [Phase.alerts, Phase.holds]

end Table

/-- The invariant of a latch and the threads inside calls on it. -/
structure Orderly (l : Latch) (table : Table) : Prop where
  /-- The holder of the lock is the one thread whose phase has it. -/
  held : ∀ t, l.holder = some t ↔ table.holds t = true
  /-- While a waiter sleeps at an open latch, some thread is about to wake it. -/
  alerted : l.parked ≠ [] → l.isOpen = true → ∃ t, table.alerts t = true

namespace Orderly

variable {l l' : Latch} {table : Table} {me : Thread}

/-- Nobody sleeps at an open latch that nobody has locked. -/
theorem shut_of_parked (h : Orderly l table) (hfree : l.holder = none) (hparked : l.parked ≠ []) :
    l.isOpen = false := by
  cases hopen : l.isOpen with
  | false => rfl
  | true =>
      obtain ⟨t, halerts⟩ := h.alerted hparked hopen
      have hholder := (h.held t).2 (Table.alerts_imp_holds halerts)
      rw [hfree] at hholder
      cases hholder

/-- A step that leaves the lock where it is. -/
theorem keep (h : Orderly l table) {next : Option Phase} (hholder : l'.holder = l.holder)
    (hholds : next.any Phase.holds = table.holds me)
    (halerted : l'.parked ≠ [] → l'.isOpen = true →
      next.any Phase.alerts = true ∨ ∃ t, t ≠ me ∧ table.alerts t = true) :
    Orderly l' (Function.update table me next) := by
  constructor
  · intro t
    rw [hholder, h.held t, Table.holds_update]
    by_cases ht : t = me
    · rw [if_pos ht, ht, hholds]
    · rw [if_neg ht]
  · intro hparked hopen
    rcases halerted hparked hopen with hme | ⟨t, ht, hother⟩
    · exact ⟨me, by simpa using hme⟩
    · exact ⟨t, by simpa [ht] using hother⟩

/-- While one thread has the lock, no other is about to wake the waiters. -/
theorem not_alerts_of_holds (h : Orderly l table) (hme : table.holds me = true) {t : Thread}
    (ht : t ≠ me) : table.alerts t = false := by
  cases halerts : table.alerts t with
  | false => rfl
  | true =>
      have hmine := (h.held me).2 hme
      have hother := (h.held t).2 (Table.alerts_imp_holds halerts)
      rw [hmine] at hother
      exact absurd (Option.some.inj hother).symm ht

/-- One thread at a time has the lock. -/
theorem unique (h : Orderly l table) {t : Thread} (hme : table.holds me = true)
    (ht : table.holds t = true) : me = t := by
  have hmine := (h.held me).2 hme
  have hother := (h.held t).2 ht
  rw [hmine] at hother
  exact Option.some.inj hother

/-- A thread that has the lock and will not wake anybody finds nobody asleep at an open latch. -/
theorem shut_of_holds (h : Orderly l table) (hme : table.holds me = true)
    (hquiet : table.alerts me = false) (hparked : l.parked ≠ []) : l.isOpen = false := by
  cases hopen : l.isOpen with
  | false => rfl
  | true =>
      obtain ⟨t, halerts⟩ := h.alerted hparked hopen
      by_cases ht : t = me
      · rw [ht, hquiet] at halerts
        cases halerts
      · rw [h.not_alerts_of_holds hme ht] at halerts
        cases halerts

/-- A thread takes the free lock. -/
theorem lock (h : Orderly l table) (hfree : l.holder = none) {next : Phase}
    (hholds : next.holds = true) :
    Orderly { l with holder := some me } (Function.update table me (some next)) := by
  constructor
  · intro t
    rw [Table.holds_update]
    by_cases ht : t = me
    · simp [ht, hholds]
    · have hother : table.holds t = false := by
        rw [← Bool.not_eq_true, ← h.held t, hfree]
        exact nofun
      simp [ht, Ne.symm ht, hother]
  · intro hparked hopen
    have hshut := h.shut_of_parked hfree hparked
    rw [show l.isOpen = true from hopen] at hshut
    cases hshut

/-- The thread that has the lock gives it up. -/
theorem unlock (h : Orderly l table) (hme : table.holds me = true) {next : Phase}
    (hholder : l'.holder = none) (hholds : next.holds = false)
    (hshut : l'.parked ≠ [] → l'.isOpen = false) :
    Orderly l' (Function.update table me (some next)) := by
  constructor
  · intro t
    rw [hholder, Table.holds_update]
    by_cases ht : t = me
    · simp [ht, hholds]
    · have hother : table.holds t = false := by
        rw [← Bool.not_eq_true, ← h.held t, (h.held me).2 hme]
        exact fun heq => ht (Option.some.inj heq).symm
      simp [ht, hother]
  · intro hparked hopen
    rw [hshut hparked] at hopen
    cases hopen

end Orderly

theorem Phase.holds_of_locked? {phase next : Phase} (h : phase.locked? = some next) :
    next.holds = true ∧ phase.holds = false := by
  cases phase with
  | entering call => cases call <;> cases h <;> exact ⟨rfl, rfl⟩
  | locking waiting | waking waiting expired =>
      cases h
      exact ⟨rfl, rfl⟩
  | _ => cases h

variable {l l' : Latch} {table : Table} {me : Thread} {now : Nat} {choice : Choice}
  {phase phase' : Phase}

/-- A step that changes neither the lock nor what the waiters look at, by a thread that is not about
to wake them. -/
theorem Orderly.pass (h : Orderly l table) (hphase : table me = some phase)
    (hholder : l'.holder = l.holder) (hopen : l'.isOpen = l.isOpen)
    (hparked : l'.parked ≠ [] → l.parked ≠ []) (hholds : phase'.holds = phase.holds)
    (hquiet : phase.alerts = false) : Orderly l' (Function.update table me (some phase')) := by
  refine h.keep hholder (by simp [Table.holds, hphase, hholds]) ?_
  intro hasleep hopen'
  rw [hopen] at hopen'
  obtain ⟨t, halerts⟩ := h.alerted (hparked hasleep) hopen'
  refine Or.inr ⟨t, ?_, halerts⟩
  rintro rfl
  simp [Table.alerts, hphase, hquiet] at halerts

/-- A thread that is not inside a call begins one, or changes nothing that the order is about. -/
theorem Orderly.rest (h : Orderly l table) {phase next : Option Phase} (hphase : table me = phase)
    (hnone : phase = none) (hholder : l'.holder = l.holder) (hholds : next.any Phase.holds = false)
    (hsame : (l'.parked, l'.failure, l'.arrivals, l'.expected) =
      (l.parked, l.failure, l.arrivals, l.expected)) :
    Orderly l' (Function.update table me next) := by
  subst hnone
  simp only [Prod.mk.injEq] at hsame
  obtain ⟨hparked, hfailure, harrivals, hexpected⟩ := hsame
  have hopen : l'.isOpen = l.isOpen := by
    simp [isOpen, isComplete, hfailure, harrivals, hexpected]
  refine h.keep hholder (by simp [Table.holds, hphase, hholds]) ?_
  intro hasleep hopen'
  rw [hparked] at hasleep
  rw [hopen] at hopen'
  obtain ⟨t, halerts⟩ := h.alerted hasleep hopen'
  refine Or.inr ⟨t, ?_, halerts⟩
  rintro rfl
  simp [Table.alerts, hphase] at halerts

/-- A thread whose call has returned is not inside a call any more. -/
theorem Orderly.leave {reply : Reply}
    (h : Orderly l (Function.update table me (some (.finished reply)))) :
    Orderly l (Function.update table me none) := by
  have hheld : ∀ t, Table.holds (Function.update table me none) t =
      Table.holds (Function.update table me (some (.finished reply))) t := by
    intro t
    simp [Phase.holds]
  have halerts : ∀ t, Table.alerts (Function.update table me none) t =
      Table.alerts (Function.update table me (some (.finished reply))) t := by
    intro t
    simp [Phase.alerts]
  refine ⟨fun t => by rw [hheld]; exact h.held t, fun hparked hopen => ?_⟩
  obtain ⟨t, ht⟩ := h.alerted hparked hopen
  exact ⟨t, by rw [halerts]; exact ht⟩

/-- Every step of every call keeps the order. -/
theorem Advance.orderly (hstep : Advance l me now choice phase l' phase')
    (h : Orderly l table) (hphase : table me = some phase) :
    Orderly l' (Function.update table me (some phase')) := by
  have hholds : table.holds me = phase.holds := by simp [Table.holds, hphase]
  have halerts : table.alerts me = phase.alerts := by simp [Table.alerts, hphase]
  cases hstep with
  | lock free locked => exact h.lock free (Phase.holds_of_locked? locked).1
  | cancel | peek | pass _ _ | overflow _ _ _ | await _ _ _ | read | refuse _ _ _ | allow _ _ _
  | expire _ _ _ _ | retry _ _ _ | giveUp _ _ | wake _ _ =>
      exact h.pass hphase rfl rfl id rfl rfl
  | stir waiting _ | alarm waiting _ _ _ _ =>
      refine h.pass hphase rfl rfl ?_ rfl rfl
      intro hparked hnil
      exact hparked (by simp [unpark, hnil])
  | countLast kind complete =>
      refine h.keep (by cases kind <;> rfl) (by rw [hholds]; rfl) ?_
      exact fun _ _ => Or.inl rfl
  | count kind incomplete =>
      -- an arrival alone does not open the latch, and a failure has no sleepers beside it
      refine h.keep (by cases kind <;> rfl) (by rw [hholds]; rfl) ?_
      intro hparked hopen
      have hasleep : l.parked ≠ [] := by cases kind <;> exact hparked
      have hshut := h.shut_of_holds (by rw [hholds]; rfl) (by rw [halerts]; rfl) hasleep
      have hfailure : (l.count kind).failure = l.failure := by cases kind <;> rfl
      simp only [isOpen, Bool.or_eq_false_iff] at hshut
      rw [isOpen, hfailure, hshut.1, incomplete] at hopen
      cases hopen
  | record failure =>
      refine h.keep ?_ (by rw [hholds]; rfl) (fun _ _ => Or.inl rfl)
      cases hfailure : l.failure <;> simp [Latch.record, hfailure]
  | flag => exact h.keep rfl (by rw [hholds]; rfl) (fun _ _ => Or.inl rfl)
  | notify =>
      refine h.keep rfl (by rw [hholds]; rfl) ?_
      exact fun hparked _ => absurd rfl hparked
  | park waiting unfailed incomplete =>
      refine h.unlock (by rw [hholds]; rfl) rfl rfl (fun _ => ?_)
      have hfailure : (l.park me).failure = none := unfailed
      have hincomplete : (l.park me).isComplete = false := incomplete
      simp [isOpen, hfailure, hincomplete]
  | release reply =>
      refine h.unlock (by rw [hholds]; rfl) rfl rfl (fun hparked => ?_)
      exact h.shut_of_holds (by rw [hholds]; rfl) (by rw [halerts]; rfl) hparked

/-- A phase that only the lock can keep from going on. -/
def Phase.Ready : Phase → Prop
  | .sleeping _ | .finished _ => False
  | _ => True

theorem acquire_free (hfree : l.holder = none) :
    l.acquire me = some { l with holder := some me } := by
  simp [acquire, hfree]

/-- A thread goes on as soon as the lock is free, or if it has the lock itself. -/
theorem advance_ready (hready : phase.Ready) (hlock : phase.holds = true ∨ l.holder = none)
    (me : Thread) (now : Nat) :
    ∃ l' phase', l.advance me now phase .proceed = some (l', phase') := by
  cases phase with
  | entering call =>
      have hfree : l.holder = none := by simpa [Phase.holds] using hlock
      cases call with
      | signal _ | fail _ | arrived => simp [advance, enter, acquire_free hfree]
      | cancel | isCancelled => exact ⟨_, _, rfl⟩
      | wait limit =>
          by_cases hzero : l.expected = 0 <;> cases hbeyond : overflows now limit <;>
            simp [advance, enter, hzero, hbeyond]
  | locking waiting | waking waiting expired =>
      have hfree : l.holder = none := by simpa [Phase.holds] using hlock
      simp [advance, acquire_free hfree]
  | sleeping _ | finished _ => exact hready.elim
  | _ => exact ⟨_, _, rfl⟩

end Latch
end ApiSchema
