import ApiSchema.Proofs.Latch.Wakeup
import Mathlib.Algebra.Order.Group.Nat

/-!
What a latch is told, and what it remembers of it.

A record lists what the calls on a latch have done to it, in the order in which it happened. The two
counts are the numbers of arrivals in the record, the failure that is kept is the first one in it,
and once the lock is free the cancellation flag is up if and only if something in the record calls
for it.
-/

namespace ApiSchema
namespace Latch

/-- Something that a thread does and a record remembers. -/
inductive Deed where
  /-- The thread begins a call. -/
  | begun (call : Call)
  /-- An arrival is counted. -/
  | arrived (kind : Signal)
  /-- A failure is reported to the latch, which keeps it if it is the first. -/
  | failed (failure : Failure)
  /-- The thread cancels, without a failure. -/
  | cancelled
  /-- A wait that has run past its limit gives up. -/
  | expired

/-- What happened so far, the earliest first. -/
abbrev Record := List Deed

namespace Record

/-- The calls begun. The call of a thread stands at the number of the thread. -/
def calls (r : Record) : List Call :=
  r.filterMap fun
    | .begun call => some call
    | _ => none

/-- The failures reported. -/
def failures (r : Record) : List Failure :=
  r.filterMap fun
    | .failed failure => some failure
    | _ => none

def arrivals (r : Record) (kind : Signal) : Nat :=
  r.countP fun
    | .arrived kind' => kind' = kind
    | _ => false

/-- The number of arrivals of either kind. -/
def total (r : Record) : Nat :=
  r.arrivals .slot + r.arrivals .property

/-- Whether anything has happened for which work is to stop. -/
def cancels (r : Record) : Bool :=
  r.any fun
    | .failed _ | .cancelled | .expired => true
    | _ => false

variable (r r' : Record)

@[simp] theorem calls_append : calls (r ++ r') = calls r ++ calls r' :=
  List.filterMap_append

@[simp] theorem failures_append : failures (r ++ r') = failures r ++ failures r' :=
  List.filterMap_append

@[simp] theorem arrivals_append (kind : Signal) :
    arrivals (r ++ r') kind = arrivals r kind + arrivals r' kind :=
  List.countP_append

@[simp] theorem cancels_append : cancels (r ++ r') = (cancels r || cancels r') :=
  List.any_append

end Record

/-- What a thread does in the step from one phase of a call to the next. -/
def Phase.deeds : Phase → Phase → Record
  | .counting kind, _ => [.arrived kind]
  | .recording failure, _ => [.failed failure]
  | .entering .cancel, _ => [.cancelled]
  | .resuming _ _, .expiring _ _ => [.expired]
  | _, _ => []

namespace Callers

def deeds (s s' : Callers) : Event → Record
  | .tick _ => []
  | .begin call => [.begun call]
  | .move thread _ =>
    match s.threads[thread]?, s'.threads[thread]? with
    | some phase, some phase' => phase.deeds phase'
    | _, _ => []

/-- The runs of calls on a latch with their records. -/
inductive Run (start : Callers) : Record → Callers → Prop
  | start : Run start [] start
  | step {r : Record} {s s' : Callers} (event : Event) (before : Run start r s)
      (next : s.step event = some s') : Run start (r ++ s.deeds s' event) s'

theorem Run.reachable {start s : Callers} {r : Record} (h : Run start r s) : Reachable start s := by
  induction h with
  | start => exact Reachable.start
  | step event _ next ih => exact ih.step event next

theorem Reachable.trans {start s s' : Callers} (h : Reachable start s) (h' : Reachable s s') :
    Reachable start s' := by
  induction h' with
  | start => exact h
  | step event _ next ih => exact ih.step event next

end Callers

variable {l l' : Latch} {me : Thread} {now : Nat} {choice : Choice} {phase phase' : Phase}

/-- The phase before a step in which nothing happens but the taking of the lock. -/
theorem Phase.deeds_of_locked? {next : Phase} (h : phase.locked? = some next) :
    phase.deeds next = [] := by
  cases phase with
  | entering call => cases call <;> cases h <;> rfl
  | locking waiting | waking waiting expired =>
      cases h
      rfl
  | _ => cases h

/-- A step counts the arrival that it adds to the record. -/
theorem Advance.counts (h : Advance l me now choice phase l' phase') :
    l'.slots = l.slots + UInt64.ofNat ((phase.deeds phase').arrivals .slot) ∧
      l'.properties = l.properties + UInt64.ofNat ((phase.deeds phase').arrivals .property) := by
  by_cases hcounting : ∃ kind, phase = .counting kind
  · obtain ⟨kind, rfl⟩ := hcounting
    rw [h.eq_count]
    cases kind <;> simp [Latch.count, Phase.deeds, Record.arrivals]
  · have hphase : ∀ kind, phase ≠ .counting kind := fun kind heq => hcounting ⟨kind, heq⟩
    have hnone : ∀ kind, (phase.deeds phase').arrivals kind = 0 := by
      intro kind
      unfold Phase.deeds
      split
      · exact absurd rfl (hphase _)
      all_goals rfl
    obtain ⟨hslots, hproperties⟩ := h.counts_eq hphase
    simp [hslots, hproperties, hnone]

/-- A step keeps the failure that is there, or else the one that it adds to the record. -/
theorem Advance.kept (h : Advance l me now choice phase l' phase') :
    l'.failure = l.failure.or (phase.deeds phase').failures.head? := by
  by_cases hrecording : ∃ failure, phase = .recording failure
  · obtain ⟨failure, rfl⟩ := hrecording
    cases h with
    | lock free locked => cases locked
    | record _ =>
        cases hfailure : l.failure <;>
          simp [Latch.record, hfailure, Phase.deeds, Record.failures]
  · have hphase : ∀ failure, phase ≠ .recording failure := fun f heq => hrecording ⟨f, heq⟩
    have hnone : (phase.deeds phase').failures = [] := by
      unfold Phase.deeds
      split
      · rfl
      · exact absurd rfl (hphase _)
      all_goals rfl
    rw [h.failure_eq hphase, hnone, List.head?_nil, Option.or_none]

/-- How a step can raise the flag: it adds a reason to the record, or a failure before it has. -/
theorem Advance.raised (h : Advance l me now choice phase l' phase')
    (hcancelled : l'.cancelled = true) :
    l.cancelled = true ∨ phase = .flagging ∨ (phase.deeds phase').cancels = true := by
  rcases h.cancelled_cases hcancelled with hold | rfl | rfl | ⟨start, limit, rfl⟩
  · exact Or.inl hold
  · cases h with
    | lock free locked => cases locked
    | cancel => exact Or.inr (Or.inr rfl)
  · exact Or.inr (Or.inl rfl)
  · cases h with
    | lock free locked =>
        cases phase with
        | entering call => cases call <;> cases locked
        | _ => cases locked
    | expire waiting limit _ _ => exact Or.inr (Or.inr rfl)

/-- A step that adds a reason to the record raises the flag, or is about to. -/
theorem Advance.raises (h : Advance l me now choice phase l' phase')
    (hcancels : (phase.deeds phase').cancels = true) :
    l'.cancelled = true ∨ phase' = .flagging := by
  cases h with
  | lock free locked =>
      rw [Phase.deeds_of_locked? locked] at hcancels
      cases hcancels
  | cancel | expire _ _ _ _ => exact Or.inl rfl
  | record failure => exact Or.inr rfl
  | _ => cases hcancels

/-- What the record says of a latch, given the phases of the threads. -/
structure Remembers (r : Record) (l : Latch) (table : Table) : Prop where
  slots : l.slots = UInt64.ofNat (r.arrivals .slot)
  properties : l.properties = UInt64.ofNat (r.arrivals .property)
  failure : l.failure = r.failures.head?
  /-- The flag is up for a reason. -/
  raised : l.cancelled = true → r.cancels = true
  /-- Where there is a reason, the flag is up, or a thread with the lock is about to raise it. -/
  raises : r.cancels = true → l.cancelled = true ∨ ∃ t, table t = some .flagging
  /-- A thread that is about to raise the flag has reported a failure. -/
  flagging : ∀ t, table t = some .flagging → r.cancels = true

/-- Only recording a failure leads to raising the flag for it. -/
theorem Advance.eq_recording (h : Advance l me now choice phase l' .flagging) :
    ∃ failure, phase = .recording failure := by
  cases h with
  | lock free locked =>
      cases phase with
      | entering call => cases call <;> cases locked
      | _ => cases locked
  | record failure => exact ⟨failure, rfl⟩

/-- Every step of every call keeps the record true. -/
theorem Remembers.advance {r : Record} {table : Table} (h : Remembers r l table)
    (hphase : table me = some phase) (hstep : Advance l me now choice phase l' phase') :
    Remembers (r ++ phase.deeds phase') l' (Function.update table me (some phase')) := by
  obtain ⟨hslots, hproperties⟩ := hstep.counts
  refine ⟨?_, ?_, ?_, ?_, ?_, ?_⟩
  · rw [hslots, h.slots, Record.arrivals_append, UInt64.ofNat_add]
  · rw [hproperties, h.properties, Record.arrivals_append, UInt64.ofNat_add]
  · rw [hstep.kept, h.failure, Record.failures_append, List.head?_append]
  · intro hcancelled
    rw [Record.cancels_append, Bool.or_eq_true]
    rcases hstep.raised hcancelled with hold | rfl | hnew
    · exact Or.inl (h.raised hold)
    · exact Or.inl (h.flagging me hphase)
    · exact Or.inr hnew
  · intro hcancels
    rw [Record.cancels_append, Bool.or_eq_true] at hcancels
    rcases hcancels with hold | hnew
    · rcases h.raises hold with hup | ⟨t, ht⟩
      · exact Or.inl (hstep.cancelled_mono hup)
      · by_cases hme : t = me
        · subst hme
          rw [hphase] at ht
          cases ht
          cases hstep with
          | lock free locked => cases locked
          | flag => exact Or.inl rfl
        · exact Or.inr ⟨t, by rwa [Function.update_of_ne hme]⟩
    · rcases hstep.raises hnew with hup | rfl
      · exact Or.inl hup
      · exact Or.inr ⟨me, by simp⟩
  · intro t ht
    rw [Record.cancels_append, Bool.or_eq_true]
    by_cases hme : t = me
    · subst hme
      rw [Function.update_self] at ht
      cases ht
      obtain ⟨failure, rfl⟩ := hstep.eq_recording
      exact Or.inr rfl
    · rw [Function.update_of_ne hme] at ht
      exact Or.inl (h.flagging t ht)

theorem Phase.calls_deeds (phase phase' : Phase) : (phase.deeds phase').calls = [] := by
  unfold Phase.deeds
  split <;> rfl

namespace Callers

/-- Each thread is inside the call that the record has for it. -/
structure Calling (r : Record) (s : Callers) : Prop where
  length : r.calls.length = s.threads.size
  serves : ∀ (t : Thread) (phase : Phase), s.threads[t]? = some phase →
    ∃ call, r.calls[t]? = some call ∧ phase.Serves call

/-- What a step does, and what it adds to the record. -/
theorem step_move_deeds {s s' : Callers} {thread : Thread} {choice : Choice}
    (h : s.step (.move thread choice) = some s') :
    ∃ phase phase', s.threads[thread]? = some phase ∧ s'.threads[thread]? = some phase' ∧
      Advance s.latch thread s.clock choice phase s'.latch phase' ∧
      s'.table = Function.update s.table thread (some phase') ∧ s'.clock = s.clock ∧
      s'.threads.size = s.threads.size ∧
      s.deeds s' (.move thread choice) = phase.deeds phase' := by
  obtain ⟨phase, latch, phase', hphase, hadvance, rfl⟩ := step_move h
  have hlt : thread < s.threads.size := (Array.getElem?_eq_some_iff.mp hphase).1
  have hphase' : (s.threads.setIfInBounds thread phase')[thread]? = some phase' := by simp [hlt]
  refine ⟨phase, phase', hphase, hphase', advance_cases hadvance, table_set s latch hphase phase',
    rfl, by simp, ?_⟩
  simp only [deeds, hphase, hphase']

theorem Calling.step {r : Record} {s s' : Callers} {event : Event} (h : Calling r s)
    (hstep : s.step event = some s') : Calling (r ++ s.deeds s' event) s' := by
  cases event with
  | tick nanoseconds =>
      cases hstep
      rw [deeds, List.append_nil]
      exact ⟨h.length, h.serves⟩
  | begin call =>
      cases hstep
      have hcalls : (r ++ [Deed.begun call]).calls = r.calls ++ [call] := Record.calls_append _ _
      refine ⟨by simp [deeds, hcalls, h.length], fun t phase hphase => ?_⟩
      rw [deeds, hcalls]
      by_cases hlast : t = s.threads.size
      · subst hlast
        rw [Array.getElem?_push_size] at hphase
        cases hphase
        exact ⟨call, by simp [← h.length], by cases call <;> rfl⟩
      · rw [Array.getElem?_push, if_neg hlast] at hphase
        obtain ⟨call', hcall', hserves⟩ := h.serves t phase hphase
        refine ⟨call', ?_, hserves⟩
        rw [List.getElem?_append_left (List.getElem?_eq_some_iff.mp hcall').1]
        exact hcall'
  | move thread choice =>
      obtain ⟨phase, phase', hphase, _, hadvance, htable, _, hsize, hdeeds⟩ := step_move_deeds hstep
      rw [hdeeds]
      have hcalls : (r ++ phase.deeds phase').calls = r.calls := by
        rw [Record.calls_append, Phase.calls_deeds, List.append_nil]
      refine ⟨by rw [hcalls, hsize, h.length], fun t next hnext => ?_⟩
      rw [hcalls]
      change s'.table t = some next at hnext
      rw [htable] at hnext
      by_cases ht : t = thread
      · subst ht
        rw [Function.update_self] at hnext
        cases hnext
        obtain ⟨call, hcall, hserves⟩ := h.serves t phase hphase
        exact ⟨call, hcall, hadvance.serves hserves⟩
      · rw [Function.update_of_ne ht] at hnext
        exact h.serves t next hnext

theorem Run.calling {expected : Nat} {r : Record} {s : Callers}
    (h : Run { latch := { expected := expected } } r s) : Calling r s := by
  induction h with
  | start => exact ⟨rfl, fun t phase hphase => by simp at hphase⟩
  | step event _ next ih => exact ih.step next

theorem remembers_step {r : Record} {s s' : Callers} {event : Event}
    (h : Remembers r s.latch s.table) (hstep : s.step event = some s') :
    Remembers (r ++ s.deeds s' event) s'.latch s'.table := by
  cases event with
  | tick nanoseconds =>
      cases hstep
      rw [deeds, List.append_nil]
      exact h
  | begin call =>
      cases hstep
      have hnew : ∀ t, Function.update s.table s.threads.size (some (.entering call)) t =
          some .flagging ↔ s.table t = some .flagging := by
        intro t
        by_cases ht : t = s.threads.size
        · subst ht
          simp [table]
        · rw [Function.update_of_ne ht]
      have hcancels : (r ++ [Deed.begun call]).cancels = r.cancels := by
        rw [Record.cancels_append, show Record.cancels [Deed.begun call] = false from rfl,
          Bool.or_false]
      rw [table_begin, deeds]
      refine ⟨?_, ?_, ?_, ?_, ?_, ?_⟩
      · simpa [Record.arrivals] using h.slots
      · simpa [Record.arrivals] using h.properties
      · simpa [Record.failures] using h.failure
      · rw [hcancels]
        exact h.raised
      · simpa only [hnew, hcancels] using h.raises
      · simpa only [hnew, hcancels] using h.flagging
  | move thread choice =>
      obtain ⟨phase, phase', hphase, _, hadvance, htable, _, _, hdeeds⟩ := step_move_deeds hstep
      rw [hdeeds, htable]
      exact h.advance hphase hadvance

/-- What a latch remembers of the calls on it, in every state that they can reach. -/
theorem Run.remembers {expected : Nat} {r : Record} {s : Callers}
    (h : Run { latch := { expected := expected } } r s) : Remembers r s.latch s.table := by
  induction h with
  | start => exact ⟨rfl, rfl, rfl, nofun, nofun, fun t ht => by simp [table] at ht⟩
  | step event _ next ih => exact remembers_step ih next

/-- The counts of a latch are the numbers of arrivals, as long as those fit into a word. -/
theorem Run.counts {expected : Nat} {r : Record} {s : Callers}
    (h : Run { latch := { expected := expected } } r s) (hfew : r.total < 2 ^ 64) :
    s.latch.slots.toNat = r.arrivals .slot ∧ s.latch.properties.toNat = r.arrivals .property ∧
      s.latch.arrivals.toNat = r.total := by
  have hslots : r.arrivals .slot < 2 ^ 64 := Nat.lt_of_le_of_lt (Nat.le_add_right _ _) hfew
  have hproperties : r.arrivals .property < 2 ^ 64 := Nat.lt_of_le_of_lt (Nat.le_add_left _ _) hfew
  rw [Latch.arrivals, h.remembers.slots, h.remembers.properties, ← UInt64.ofNat_add]
  exact ⟨UInt64.toNat_ofNat_of_lt' hslots, UInt64.toNat_ofNat_of_lt' hproperties,
    UInt64.toNat_ofNat_of_lt' hfew⟩

end Callers

end Latch
end ApiSchema
