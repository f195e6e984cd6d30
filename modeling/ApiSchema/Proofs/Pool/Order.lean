import ApiSchema.Proofs.Latch.Order
import ApiSchema.Proofs.Pool.Claims

/-!
The threads of a pool keep the order that calls keep on a latch.

`Plan.table` gathers the phases of the caller, the workers and the bystanders under their thread
numbers. In every state that a run reaches from a fresh latch, the table and the latch are orderly.
-/

namespace ApiSchema
namespace Pool

variable {Local Shared : Type}

def Worker.phase? : Worker Local → Option Latch.Phase
  | .calling _ _ phase _ | .failing _ phase => some phase
  | _ => none

def Caller.phase? : Caller → Option Latch.Phase
  | .failing phase | .waiting phase => some phase
  | _ => none

/-- The phases of all threads of a pool. -/
def Plan.table (p : Plan Local Shared) (s : State Local Shared) : Latch.Table := fun t =>
  if t = callerThread then s.caller.phase?
  else if t ≤ p.threads then s.team[t - 1]?.bind Worker.phase?
  else s.bystanders[t - (p.threads + 1)]?

variable {p : Plan Local Shared} {c' : Common Shared} {h : History Local}
  {s s' : State Local Shared} {label : Label} {choice : Latch.Choice} {i : Nat}
  {worker worker' : Worker Local}

@[simp] theorem table_caller (s : State Local Shared) :
    p.table s callerThread = s.caller.phase? := by
  simp [Plan.table]

theorem table_worker (hi : i < p.threads) :
    p.table s (workerThread i) = s.team[i]?.bind Worker.phase? := by
  have hthread : i + 1 ≤ p.threads := hi
  simp [Plan.table, workerThread, callerThread, hthread]

@[simp] theorem table_bystander (s : State Local Shared) (i : Nat) :
    p.table s (p.bystanderThread i) = s.bystanders[i]? := by
  have hbeyond : ¬ p.threads + 1 + i ≤ p.threads := by omega
  simp [Plan.table, Plan.bystanderThread, callerThread, hbeyond]

/-- Every thread is the caller, a worker or a bystander. -/
theorem thread_cases (p : Plan Local Shared) (t : Nat) :
    t = callerThread ∨ (∃ i, i < p.threads ∧ t = workerThread i) ∨
      ∃ i, t = p.bystanderThread i := by
  by_cases hzero : t = 0
  · exact Or.inl hzero
  · right
    by_cases hle : t ≤ p.threads
    · exact Or.inl ⟨t - 1, by omega, show t = t - 1 + 1 by omega⟩
    · exact Or.inr ⟨t - (p.threads + 1), show t = p.threads + 1 + (t - (p.threads + 1)) by omega⟩

theorem table_set_caller (p : Plan Local Shared) (s : State Local Shared) (c' : Common Shared)
    (caller : Caller) :
    p.table { s with common := c', caller := caller } =
      Function.update (p.table s) callerThread caller.phase? := by
  funext t
  by_cases ht : t = callerThread
  · subst ht
    simp
  · rw [Function.update_of_ne ht]
    simp [Plan.table, ht]

theorem table_set_worker (hi : i < p.threads) (hworker : s.team[i]? = some worker)
    (c' : Common Shared) (worker' : Worker Local) :
    p.table { s with common := c', team := s.team.setIfInBounds i worker' } =
      Function.update (p.table s) (workerThread i) worker'.phase? := by
  have hsize : i < s.team.size := (Array.getElem?_eq_some_iff.mp hworker).1
  funext t
  by_cases ht : t = workerThread i
  · subst ht
    rw [table_worker hi]
    simp [hsize]
  · rw [Function.update_of_ne ht]
    rcases thread_cases p t with rfl | ⟨j, hj, rfl⟩ | ⟨j, rfl⟩
    · simp
    · have hne : i ≠ j := fun heq => ht (by rw [heq])
      rw [table_worker hj, table_worker hj, Array.getElem?_setIfInBounds_ne hne]
    · simp

theorem table_spawn (p : Plan Local Shared) (s : State Local Shared) :
    p.table { s with team := s.team.push .checking } = p.table s := by
  funext t
  rcases thread_cases p t with rfl | ⟨j, hj, rfl⟩ | ⟨j, rfl⟩
  · simp
  · rw [table_worker hj, table_worker hj, Array.getElem?_push]
    by_cases hnew : j = s.team.size
    · simp [hnew, Worker.phase?]
    · rw [if_neg hnew]
  · simp

theorem table_set_bystander {phase : Latch.Phase} (hphase : s.bystanders[i]? = some phase)
    (c' : Common Shared) (phase' : Latch.Phase) :
    p.table { s with common := c', bystanders := s.bystanders.setIfInBounds i phase' } =
      Function.update (p.table s) (p.bystanderThread i) (some phase') := by
  have hsize : i < s.bystanders.size := (Array.getElem?_eq_some_iff.mp hphase).1
  funext t
  by_cases ht : t = p.bystanderThread i
  · subst ht
    simp [hsize]
  · rw [Function.update_of_ne ht]
    rcases thread_cases p t with rfl | ⟨j, hj, rfl⟩ | ⟨j, rfl⟩
    · simp
    · rw [table_worker hj, table_worker hj]
    · have hne : i ≠ j := fun heq => ht (by rw [heq])
      simp [hne]

theorem table_outside (p : Plan Local Shared) (s : State Local Shared) (call : Latch.Call) :
    p.table { s with bystanders := s.bystanders.push (.entering call) } =
      Function.update (p.table s) (p.bystanderThread s.bystanders.size)
        (some (.entering call)) := by
  funext t
  by_cases ht : t = p.bystanderThread s.bystanders.size
  · subst ht
    simp
  · rw [Function.update_of_ne ht]
    rcases thread_cases p t with rfl | ⟨j, hj, rfl⟩ | ⟨j, rfl⟩
    · simp
    · rw [table_worker hj, table_worker hj]
    · have hne : j ≠ s.bystanders.size := fun heq => ht (by rw [heq])
      simp [Array.getElem?_push, hne]

theorem phase?_afterWait (reply : Latch.Reply) : (Caller.afterWait reply).phase? = none := by
  cases reply with
  | released result => cases result <;> rfl
  | _ => rfl

theorem orderly_caller (horder : Latch.Orderly s.common.latch (p.table s))
    (hstep : CallerStep p s choice s.caller s') :
    Latch.Orderly s'.common.latch (p.table s') := by
  generalize hcaller : s.caller = caller at hstep
  have hmine : p.table s callerThread = caller.phase? := by rw [table_caller, hcaller]
  cases hstep with
  | spawn _ =>
      rw [table_spawn]
      exact horder
  | begin _ =>
      rw [show p.table _ = _ from table_set_caller p s s.common _]
      exact horder.rest hmine rfl rfl rfl rfl
  | failStep advance _ | waitStep advance _ =>
      rw [show p.table _ = _ from table_set_caller p s { s.common with latch := _ } _]
      exact advance.orderly horder hmine
  | failReturn reply advance =>
      rw [show p.table _ = _ from table_set_caller p s { s.common with latch := _ } _]
      have hleft := (advance.orderly horder hmine).leave
      have hwaiting : Latch.Orderly _ (Function.update _ _ (some (.entering (.wait p.limit)))) :=
        hleft.rest (Function.update_self ..) rfl rfl rfl rfl
      rwa [Function.update_idem] at hwaiting
  | waitReturn reply advance =>
      rw [show p.table _ = _ from table_set_caller p s { s.common with latch := _ } _,
        phase?_afterWait]
      exact (advance.orderly horder hmine).leave
  | cancel failure =>
      rw [show p.table _ = _ from table_set_caller p s { s.common with latch := _ } _]
      exact horder.rest hmine rfl rfl rfl rfl
  | join _ _ _ | finish _ _ _ | escape _ =>
      rw [show p.table _ = _ from table_set_caller p s s.common _]
      exact horder.rest hmine rfl rfl rfl rfl

theorem orderly_worker (horder : Latch.Orderly s.common.latch (p.table s)) (hi : i < p.threads)
    (hworker : s.team[i]? = some worker)
    (hstep : WorkerStep p s.common (workerThread i) choice worker c' worker') :
    Latch.Orderly c'.latch (Function.update (p.table s) (workerThread i) worker'.phase?) := by
  have hmine : p.table s (workerThread i) = worker.phase? := by
    rw [table_worker hi, hworker]
    rfl
  cases hstep with
  | callStep _ _ _ advance _ | failStep _ advance _ => exact advance.orderly horder hmine
  | callReturn _ _ _ _ advance | failReturn _ _ advance =>
      exact (advance.orderly horder hmine).leave
  | _ => exact horder.rest hmine rfl rfl rfl rfl

theorem Step.orderly (hacc : Accounted p h s) (horder : Latch.Orderly s.common.latch (p.table s))
    (hstep : Step p s label s') : Latch.Orderly s'.common.latch (p.table s') := by
  cases hstep with
  | tick _ => exact horder
  | caller hstep => exact orderly_caller horder hstep
  | refuse text starting _ =>
      rw [show p.table _ = _ from table_set_caller p s s.common _]
      have hmine : p.table s callerThread = none := by rw [table_caller, starting]; rfl
      exact horder.rest hmine rfl rfl rfl rfl
  | worker index here hstep =>
      have hsize := (Array.getElem?_eq_some_iff.mp here).1
      have hindex : index < p.threads := Nat.lt_of_lt_of_le hsize hacc.team_le
      rw [table_set_worker hindex here]
      exact orderly_worker horder hindex here hstep
  | outside call =>
      have hnew : p.table s (p.bystanderThread s.bystanders.size) = none := by simp
      rw [table_outside]
      exact horder.rest hnew rfl rfl rfl rfl
  | bystander index here advance =>
      rw [table_set_bystander here]
      exact advance.orderly horder (by rw [table_bystander, here])

/-- In every run from a fresh latch, the threads keep the order of the latch. -/
theorem Plan.Run.orderly {around : Surroundings} {expected : Nat} {shared : Shared}
    (hfits : p.units + p.threads < 2 ^ 64)
    (hrun : p.Run around (p.initial { expected := expected } shared) h s) :
    Latch.Orderly s.common.latch (p.table s) := by
  induction hrun with
  | start =>
      refine ⟨fun t => ?_, fun hparked => absurd rfl hparked⟩
      have hnone : p.table (p.initial { expected := expected } shared) t = none := by
        by_cases hunits : p.units = 0 <;> simp [Plan.table, Plan.initial, Caller.phase?, hunits]
      rw [Latch.Table.holds, hnone]
      simp [Plan.initial]
  | step label before _ hnext ih => exact (step_cases hnext).orderly (before.accounted hfits) ih

end Pool
end ApiSchema
