import ApiSchema.Proofs.Latch.Wakeup
import ApiSchema.Proofs.Pool.Horizon
import ApiSchema.Proofs.Pool.Measure
import Mathlib.Logic.Hydra
import Mathlib.Order.RelClasses

/-!
Every run of a pool comes to its end.

The programs of the units terminate. So the positions of the units that have not ended shrink as
multisets whenever a program moves on, and between two such moves the tolls go down. No run goes on
forever, and by `Plan.Run.progress` it does not get stuck either. A caller panics only if its limit
lies past the horizon of the clock.
-/

namespace ApiSchema
namespace Pool

open Relation (CutExpand)

variable {Local Shared : Type} {p : Plan Local Shared} {h : History Local}
  {s s' : State Local Shared} {label : Label}

/-- A program that ends does so from wherever it can come. -/
theorem Job.Visits.acc {job : Job Local Shared} {unit signals : Nat} {position : Position Local}
    (hstart : Acc job.Follows (.ready (job.start unit)))
    (hvisits : job.Visits unit signals position) : Acc job.Follows position := by
  induction hvisits with
  | start => exact hstart
  | follow _ follows ih => exact ih.inv follows

/-- One position follows another from which the program ends. -/
def Job.Descends (job : Job Local Shared) (later earlier : Position Local) : Prop :=
  Acc job.Follows earlier ∧ job.Follows later earlier

theorem Job.descends_wf (job : Job Local Shared) : WellFounded job.Descends := by
  refine ⟨fun position => ?_⟩
  by_cases hacc : Acc job.Follows position
  · induction hacc with
    | intro position _ ih =>
        exact Acc.intro position fun later hlater => ih later hlater.2
  · exact Acc.intro position fun later hlater => absurd hlater.1 hacc

/-- What is left to do in a state: first the positions of the units, then the tolls. -/
def Plan.work (p : Plan Local Shared) (s : State Local Shared) :
    Multiset (Position Local) × Nat :=
  (p.positions s, p.toll s)

def Job.Less (job : Job Local Shared) :
    Multiset (Position Local) × Nat → Multiset (Position Local) × Nat → Prop :=
  Prod.Lex (CutExpand job.Descends) (· < ·)

theorem Job.less_wf (job : Job Local Shared) : WellFounded job.Less :=
  job.descends_wf.cutExpand.prod_lex Nat.lt_wfRel.wf

/-- What uses something up leaves less to do. -/
theorem Spends.less (hjob : p.job.Terminates p.units) (hspends : Spends p s s') :
    p.job.Less (p.work s') (p.work s) := by
  cases hspends with
  | toll same less =>
      unfold Plan.work
      rw [same]
      exact Prod.Lex.right _ less
  | follow claimed visits follows moved _ =>
      refine Prod.Lex.left _ _ ⟨_, _, fun later hlater => ?_, moved⟩
      rw [Multiset.mem_singleton.mp hlater]
      exact ⟨visits.acc (hjob _ claimed), follows⟩
  | finish claimed visits next moved _ =>
      exact Prod.Lex.left _ _ ⟨0, _, by simp, by rwa [add_zero]⟩

/-- A step of a thread that does not wake up for no reason. -/
def Label.OfThread : Label → Prop
  | .caller choice | .worker _ choice | .bystander _ choice => choice ≠ .spurious
  | .refuse _ => True
  | .tick _ | .outside _ => False

/-- Every step of a thread in a run uses something up. -/
theorem Plan.Run.spends {expected : Nat} {shared : Shared} (hfits : p.units + p.threads < 2 ^ 64)
    (hcalls : p.job.CallsOnly p.units Prompt)
    (hrun : p.Run refusing (p.initial { expected := expected } shared) h s)
    (hthread : label.OfThread) (hstep : p.step s label = some s') : Spends p s s' := by
  refine (step_cases hstep).spends (hrun.accounted hfits) hfits (hrun.followed hfits) hrun.serving
    (hrun.orderly hfits) hcalls ?_ ?_ ?_
  · cases label with
    | outside call => exact hthread.elim
    | _ => trivial
  · rintro nanoseconds rfl
    exact hthread
  · rintro rfl
    exact hthread rfl

/-- The states and events of a run without end, in which nobody else calls the latch and no thread
wakes up for no reason. Workers may be refused. -/
structure Plan.Endless (p : Plan Local Shared) (start : State Local Shared)
    (states : Nat → State Local Shared) (labels : Nat → Label) : Prop where
  start : states 0 = start
  step : ∀ n, p.step (states n) (labels n) = some (states (n + 1))
  quiet : ∀ n, (∃ nanoseconds, labels n = .tick nanoseconds) ∨ (labels n).OfThread

theorem Plan.Endless.run {start : State Local Shared} {states : Nat → State Local Shared}
    {labels : Nat → Label} (hendless : p.Endless start states labels) (n : Nat) :
    ∃ h, p.Run refusing start h (states n) := by
  induction n with
  | zero => exact ⟨[], by rw [hendless.start]; exact Plan.Run.start⟩
  | succ n ih =>
      obtain ⟨h, hrun⟩ := ih
      refine ⟨_, hrun.step (labels n) ?_ (hendless.step n)⟩
      rcases hendless.quiet n with ⟨nanoseconds, heq⟩ | hthread
      · rw [heq]
        trivial
      · cases hlabel : labels n with
        | outside call =>
            rw [hlabel] at hthread
            exact hthread.elim
        | _ => trivial

/-- A sequence that never goes up in a well-founded relation goes down only finitely often. -/
theorem eventually_not_below {α : Type} {r : α → α → Prop} (hwf : WellFounded r) {f : Nat → α}
    {down : Nat → Prop} (hdown : ∀ n, down n → r (f (n + 1)) (f n))
    (hkeep : ∀ n, ¬ down n → f (n + 1) = f n) : ∃ n, ∀ m, n ≤ m → ¬ down m := by
  obtain ⟨_, ⟨n, rfl⟩, hmin⟩ := hwf.has_min (Set.range f) ⟨f 0, 0, rfl⟩
  have hsame : ∀ k, f (n + k) = f n := by
    intro k
    induction k with
    | zero => rfl
    | succ k ih =>
        by_cases hlower : down (n + k)
        · have hbelow := hdown (n + k) hlower
          rw [ih] at hbelow
          exact absurd hbelow (hmin _ ⟨n + k + 1, rfl⟩)
        · rw [← ih]
          exact hkeep (n + k) hlower
  refine ⟨n, fun m hm hlower => ?_⟩
  obtain ⟨k, rfl⟩ := Nat.exists_eq_add_of_le hm
  have hbelow := hdown (n + k) hlower
  rw [hsame k] at hbelow
  exact hmin _ ⟨n + k + 1, rfl⟩ hbelow

/-- In a run without end, the threads stop taking steps at some point. -/
theorem Plan.Endless.finite {expected : Nat} {shared : Shared}
    (hfits : p.units + p.threads < 2 ^ 64) (hcalls : p.job.CallsOnly p.units Prompt)
    (hjob : p.job.Terminates p.units) {states : Nat → State Local Shared} {labels : Nat → Label}
    (hendless : p.Endless (p.initial { expected := expected } shared) states labels) :
    ∃ n, ∀ m, n ≤ m → ¬ (labels m).OfThread := by
  refine eventually_not_below p.job.less_wf (f := fun n => p.work (states n)) ?_ ?_
  · intro n hthread
    obtain ⟨h, hrun⟩ := hendless.run n
    exact Spends.less hjob (hrun.spends hfits hcalls hthread (hendless.step n))
  · intro n hthread
    rcases hendless.quiet n with ⟨nanoseconds, hlabel⟩ | hthread'
    · have hstep := hendless.step n
      rw [hlabel] at hstep
      show p.work (states (n + 1)) = p.work (states n)
      rw [← Option.some.inj hstep]
      rfl
    · exact absurd hthread' hthread

theorem ofThread_of_mem_candidates (hmem : label ∈ s.candidates) : label.OfThread := by
  simp only [State.candidates, List.mem_append, List.mem_map, List.mem_singleton] at hmem
  rcases hmem with ⟨i, _, rfl⟩ | rfl <;> simp [Label.OfThread]

def State.Returned (s : State Local Shared) : Prop :=
  ∃ result, s.result? = some result

/-- The caller has returned, or has panicked at a limit that lies past the horizon of the clock. -/
def Plan.Over (p : Plan Local Shared) (s : State Local Shared) : Prop :=
  s.Returned ∨ s.caller = .panicked ∧ Latch.overflows s.common.clock p.limit = true

theorem Plan.Run.over_of_gone {around : Surroundings} {latch : Latch} {shared : Shared}
    (hrun : p.Run around (p.initial latch shared) h s) (hgone : s.caller.Gone) : p.Over s := by
  cases hcaller : s.caller with
  | returned result => exact Or.inl ⟨result, by simp [State.result?, hcaller]⟩
  | panicked => exact Or.inr ⟨hcaller, hrun.overflows (by rw [hcaller]; trivial)⟩
  | _ =>
      rw [hcaller] at hgone
      exact hgone.elim

/-- The runs from a state come to their end: they do not get stuck, do not go on forever, and so end
as they should. The system may refuse to start workers. -/
structure Plan.Ends (p : Plan Local Shared) (settled : State Local Shared → Prop)
    (start : State Local Shared) : Prop where
  /-- In every state, all is settled or some thread can take a step. -/
  progress : ∀ h s, p.Run refusing start h s →
    settled s ∨ ∃ label, label.OfThread ∧ p.CanStep s label
  /-- In no run do threads take steps forever. -/
  finite : ∀ states labels, p.Endless start states labels →
    ∃ n, ∀ m, n ≤ m → ¬ (labels m).OfThread
  /-- Where no thread can take a step, all is settled. -/
  settles : ∀ h s, p.Run refusing start h s →
    (∀ label, label.OfThread → ¬ p.CanStep s label) → settled s

/-- Without a limit, a pool whose runs come to their end returns. -/
theorem Plan.Ends.returned {start : State Local Shared} (hends : p.Ends p.Over start)
    (hlimit : p.limit = none) : p.Ends State.Returned start := by
  have hreturned : ∀ s, p.Over s → s.Returned := by
    rintro s (hreturned | ⟨_, hoverflows⟩)
    · exact hreturned
    · rw [hlimit] at hoverflows
      cases hoverflows
  exact ⟨fun h s hrun => (hends.progress h s hrun).imp_left (hreturned s), hends.finite,
    fun h s hrun hstuck => hreturned s (hends.settles h s hrun hstuck)⟩

/-- What it takes for the runs of a pool to come to their end. -/
theorem Plan.ends_of_complete {expected : Nat} {shared : Shared}
    (hfits : p.units + p.threads < 2 ^ 64) (hthreads : 1 ≤ p.threads)
    (hunblocked : p.job.Unblocked p.units) (hterminates : p.job.Terminates p.units)
    (hdone : ∀ h s, p.Run refusing (p.initial { expected := expected } shared) h s →
      (∀ worker ∈ s.team, worker = .stopped) → claimedUnits h = List.range p.units →
        s.common.latch.failure = none → s.common.latch.isComplete = true) :
    p.Ends p.Over (p.initial { expected := expected } shared) := by
  have hprogress : ∀ h s, p.Run refusing (p.initial { expected := expected } shared) h s →
      p.Over s ∨ ∃ label, label.OfThread ∧ p.CanStep s label := by
    intro h s hrun
    rcases hrun.progress hfits hthreads hunblocked (hdone h s hrun) with
      hgone | ⟨label, hmem, hcan⟩
    · exact Or.inl (hrun.over_of_gone hgone)
    · exact Or.inr ⟨label, ofThread_of_mem_candidates hmem, hcan⟩
  refine ⟨hprogress, ?_, ?_⟩
  · intro states labels hendless
    exact hendless.finite hfits hunblocked.calls hterminates
  · intro h s hrun hstuck
    rcases hprogress h s hrun with hover | ⟨label, hthread, hcan⟩
    · exact hover
    · exact absurd hcan (hstuck label hthread)

end Pool
end ApiSchema
