import ApiSchema.Latch.Callers
import ApiSchema.Proofs.Latch.Order

/-!
No lost wake-up, for any number of threads calling one latch.

In every state that calls can reach from a fresh latch, a waiter that still sleeps while the lock is
free has nothing to wake up for: no failure is recorded and arrivals are missing.
-/

namespace ApiSchema
namespace Latch

/-- What it means for a latch to be open. -/
theorem isOpen_eq_false_iff {l : Latch} :
    l.isOpen = false ↔ l.failure = none ∧ l.arrivals.toNat < l.expected := by
  simp [isOpen, isComplete]

namespace Callers

/-- The states that calls can reach from a state, in any interleaving. -/
inductive Reachable (start : Callers) : Callers → Prop
  | start : Reachable start start
  | step {s s' : Callers} (event : Event) (before : Reachable start s)
      (next : s.step event = some s') : Reachable start s'

def table (s : Callers) : Table :=
  fun t => s.threads[t]?

theorem step_move {s s' : Callers} {thread : Thread} {choice : Choice}
    (h : s.step (.move thread choice) = some s') :
    ∃ phase latch phase', s.threads[thread]? = some phase ∧
      s.latch.advance thread s.clock phase choice = some (latch, phase') ∧
      s' = { s with latch, threads := s.threads.setIfInBounds thread phase' } := by
  simp only [step, bind, Option.bind_eq_some_iff] at h
  obtain ⟨phase, hphase, ⟨latch, phase'⟩, hadvance, hs⟩ := h
  exact ⟨phase, latch, phase', hphase, hadvance, (Option.some.inj hs).symm⟩

theorem table_set (s : Callers) (l : Latch) {thread : Thread} {phase : Phase}
    (hphase : s.threads[thread]? = some phase) (phase' : Phase) :
    table { s with latch := l, threads := s.threads.setIfInBounds thread phase' } =
      Function.update s.table thread (some phase') := by
  have hlt : thread < s.threads.size := (Array.getElem?_eq_some_iff.mp hphase).1
  funext t
  by_cases ht : t = thread
  · subst ht
    simp [table, hlt]
  · simp [table, ht, Ne.symm ht]

theorem table_begin (s : Callers) (call : Call) :
    table { s with threads := s.threads.push (.entering call) } =
      Function.update s.table s.threads.size (some (.entering call)) := by
  funext t
  by_cases ht : t = s.threads.size
  · subst ht
    simp [table]
  · simp [table, Array.getElem?_push, ht]

theorem step_orderly {s s' : Callers} {event : Event} (h : Orderly s.latch s.table)
    (hstep : s.step event = some s') : Orderly s'.latch s'.table := by
  cases event with
  | tick nanoseconds =>
      cases hstep
      exact h
  | begin call =>
      cases hstep
      have hnew : s.table s.threads.size = none := by simp [table]
      rw [table_begin]
      refine h.keep rfl (by simp [Table.holds, hnew, Phase.holds]) ?_
      intro hparked hopen
      obtain ⟨t, halerts⟩ := h.alerted hparked hopen
      refine Or.inr ⟨t, ?_, halerts⟩
      rintro rfl
      simp [Table.alerts, hnew] at halerts
  | move thread choice =>
      obtain ⟨phase, latch, phase', hphase, hadvance, rfl⟩ := step_move hstep
      rw [table_set s latch hphase]
      exact (advance_cases hadvance).orderly h hphase

/-- A latch nobody has called yet. -/
theorem orderly_start (expected : Nat) :
    Orderly { expected := expected } (table { latch := { expected := expected } }) :=
  ⟨fun t => by simp [Table.holds, table], fun h => absurd rfl h⟩

theorem Reachable.orderly {expected : Nat} {s : Callers}
    (h : Reachable { latch := { expected := expected } } s) : Orderly s.latch s.table := by
  induction h with
  | start => exact orderly_start expected
  | step event _ hstep ih => exact step_orderly ih hstep

theorem step_expected {s s' : Callers} {event : Event} (hstep : s.step event = some s') :
    s'.latch.expected = s.latch.expected := by
  cases event with
  | tick nanoseconds =>
      cases hstep
      rfl
  | begin call =>
      cases hstep
      rfl
  | move thread choice =>
      obtain ⟨phase, latch, phase', hphase, hadvance, rfl⟩ := step_move hstep
      exact (advance_cases hadvance).expected_eq

theorem Reachable.expected_eq {expected : Nat} {s : Callers}
    (h : Reachable { latch := { expected := expected } } s) : s.latch.expected = expected := by
  induction h with
  | start => rfl
  | step event _ hstep ih => exact (step_expected hstep).trans ih

end Callers
end Latch
end ApiSchema
