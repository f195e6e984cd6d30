import ApiSchema.Pool.Basic
import Mathlib.Algebra.BigOperators.Group.List.Basic
import Mathlib.Algebra.Order.BigOperators.Group.List
import Mathlib.Algebra.Order.Group.Nat
import Mathlib.Tactic.Abel

/-!
Sums over the workers of a pool.

Most of what a pool keeps is a balance: something in the history or the shared memory equals a sum
over the workers. A step replaces one worker, so a sum changes by the difference of two terms.
-/

namespace ApiSchema
namespace Pool

theorem sum_map_set {α M : Type*} [AddCommMonoid M] (f : α → M) {items : List α} {i : Nat}
    {old : α} (hold : items[i]? = some old) (new : α) :
    ((items.set i new).map f).sum + f old = (items.map f).sum + f new := by
  induction items generalizing i with
  | nil => simp at hold
  | cons head rest ih =>
      cases i with
      | zero =>
          obtain rfl : head = old := by simpa using hold
          simp only [List.set_cons_zero, List.map_cons, List.sum_cons]
          abel
      | succ i =>
          have hrest := ih (i := i) (by simpa using hold)
          simp only [List.set_cons_succ, List.map_cons, List.sum_cons]
          rw [add_assoc, hrest, add_assoc]

variable {Local : Type} {M : Type*} [AddCommMonoid M]

def total (f : Worker Local → M) (team : Array (Worker Local)) : M :=
  (team.toList.map f).sum

variable {f : Worker Local → M} {team : Array (Worker Local)} {i : Nat}
  {worker : Worker Local}

@[simp] theorem total_empty (f : Worker Local → M) : total f #[] = 0 := rfl

@[simp] theorem total_push (f : Worker Local → M) (team : Array (Worker Local))
    (worker : Worker Local) : total f (team.push worker) = total f team + f worker := by
  simp [total]

/-- A worker is replaced. -/
theorem total_set (f : Worker Local → M) (hworker : team[i]? = some worker)
    (worker' : Worker Local) :
    total f (team.setIfInBounds i worker') + f worker = total f team + f worker' := by
  simp only [total, Array.toList_setIfInBounds]
  exact sum_map_set f (by simpa using hworker) worker'

theorem total_eq_zero (h : ∀ worker ∈ team, f worker = 0) : total f team = 0 := by
  apply List.sum_eq_zero
  intro x hx
  obtain ⟨worker, hworker, rfl⟩ := List.mem_map.mp hx
  exact h worker (by simpa using hworker)

/-- Workers that have all stopped add nothing. -/
theorem total_of_stopped (hstopped : ∀ worker ∈ team, worker = .stopped) (hzero : f .stopped = 0) :
    total f team = 0 := by
  apply total_eq_zero
  intro worker hworker
  rw [hstopped worker hworker, hzero]

/-- A positive sum comes from some worker. -/
theorem exists_of_total_pos {f : Worker Local → Nat} (h : 0 < total f team) :
    ∃ (i : Nat) (worker : Worker Local), team[i]? = some worker ∧ 0 < f worker := by
  by_contra hnone
  refine Nat.ne_of_gt h (total_eq_zero fun worker hworker => ?_)
  obtain ⟨i, hi, rfl⟩ := Array.mem_iff_getElem.mp hworker
  by_contra hpos
  exact hnone ⟨i, _, Array.getElem?_eq_getElem hi, Nat.pos_of_ne_zero hpos⟩

/-- Every worker is counted in a sum. -/
theorem le_total (f : Worker Local → Nat) (hworker : team[i]? = some worker) :
    f worker ≤ total f team := by
  apply List.le_sum_of_mem
  exact List.mem_map_of_mem (by simpa using Array.mem_of_getElem? hworker)

/-- Two workers are counted twice. -/
theorem add_le_total {f : Worker Local → Nat} (hzero : f .stopped = 0) {j : Nat}
    {other : Worker Local} (hne : i ≠ j) (hworker : team[i]? = some worker)
    (hother : team[j]? = some other) : f worker + f other ≤ total f team := by
  have hkeep : (team.setIfInBounds j Worker.stopped)[i]? = some worker := by
    simp [Ne.symm hne, hworker]
  calc f worker + f other
      ≤ total f (team.setIfInBounds j Worker.stopped) + f other :=
        Nat.add_le_add_right (le_total f hkeep) _
    _ = total f team + f .stopped := total_set f hother .stopped
    _ = total f team := by rw [hzero, Nat.add_zero]

/-- A worker after a step is the one that took it, or another one as before. -/
theorem worker_cases {worker' other : Worker Local} {j : Nat}
    (hother : (team.setIfInBounds i worker')[j]? = some other) :
    j = i ∧ other = worker' ∨ j ≠ i ∧ team[j]? = some other := by
  by_cases hj : j = i
  · subst hj
    have hlt : j < team.size := by
      simpa using (Array.getElem?_eq_some_iff.mp hother).1
    left
    simpa [hlt, eq_comm] using hother
  · right
    rw [Array.getElem?_setIfInBounds_ne (Ne.symm hj)] at hother
    exact ⟨hj, hother⟩

/-- A new worker leaves the others where they are. -/
theorem getElem?_push_of_some (hworker : team[i]? = some worker) (newcomer : Worker Local) :
    (team.push newcomer)[i]? = some worker := by
  have hlt := (Array.getElem?_eq_some_iff.mp hworker).1
  rw [Array.getElem?_push, if_neg (Nat.ne_of_lt hlt)]
  exact hworker

theorem total_le_size {f : Worker Local → Nat} (h : ∀ worker, f worker ≤ 1) :
    total f team ≤ team.size := by
  have hle := List.sum_le_card_nsmul (team.toList.map f) 1 (by
    intro x hx
    obtain ⟨worker, _, rfl⟩ := List.mem_map.mp hx
    exact h worker)
  simpa [total] using hle

end Pool
end ApiSchema
