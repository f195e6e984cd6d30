import ApiSchema.Pool.Script
import ApiSchema.Proofs.Pool.Program

/-!
Scripted units and the contracts of jobs.

A script is a list of acts and an outcome, so what its unit does can be read off it: it ends, it
sends as many signals as the script has, and it blocks only where the script says so.
-/

namespace ApiSchema
namespace Pool

def signalsOf (acts : List Act) : Nat :=
  acts.countP fun
    | .signal _ => true
    | .untilCancelled => false

/-- Where the unit of a script can stand, with the signals sent so far: the rest of the script is
before it. -/
def Script.Stands (script : Script) (unit signals : Nat) : Position ScriptState → Prop
  | .ready (.beginning unit') => unit' = unit ∧ signals = 0
  | .ready (.following rest) =>
    rest.acts <:+ script.acts ∧ rest.outcome = script.outcome ∧
      signals + signalsOf rest.acts = signalsOf script.acts
  | .inside call resume => ∃ kind acts, call = .signal kind ∧ acts <:+ script.acts ∧
      (∀ reply, resume reply = .following ⟨acts, script.outcome⟩) ∧
        signals + signalsOf acts = signalsOf script.acts

variable {script : Nat → Script} {unit signals : Nat} {position : Position ScriptState}

theorem suffix_of_cons {α : Type} {first : α} {rest items : List α} (h : first :: rest <:+ items) :
    rest <:+ items :=
  (List.suffix_cons first rest).trans h

/-- The next position of a scripted unit. -/
theorem Script.Stands.follow {earlier later : Position ScriptState}
    (hstands : (script unit).Stands unit signals earlier)
    (hfollows : (scriptJob script).Follows later earlier) :
    (script unit).Stands unit (signals + later.signals) later := by
  cases hfollows with
  | @access state act next shared =>
      cases state with
      | beginning unit' =>
          cases next
          obtain ⟨rfl, rfl⟩ := hstands
          exact ⟨List.suffix_refl _, rfl, Nat.zero_add _⟩
      | following rest =>
          obtain ⟨_ | ⟨_ | _, acts⟩, outcome⟩ := rest <;> cases next
  | @call state call resume next =>
      cases state with
      | beginning unit' => cases next
      | following rest =>
          obtain ⟨_ | ⟨kind | _, acts⟩, outcome⟩ := rest <;> cases next
          obtain ⟨hsuffix, rfl, hcount⟩ := hstands
          refine ⟨kind, acts, rfl, suffix_of_cons hsuffix, fun _ => rfl, ?_⟩
          simp only [signalsOf, List.countP_cons_of_pos, Position.signals] at hcount ⊢
          omega
  | reply answers resume =>
      obtain ⟨kind, acts, rfl, hsuffix, hresume, hcount⟩ := hstands
      rw [hresume]
      exact ⟨hsuffix, rfl, hcount⟩
  | @unblock state state' next =>
      cases state with
      | beginning unit' => cases next
      | following rest =>
          obtain ⟨_ | ⟨_ | _, acts⟩, outcome⟩ := rest <;> cases next
          obtain ⟨hsuffix, houtcome, hcount⟩ := hstands
          exact ⟨suffix_of_cons hsuffix, houtcome, hcount⟩

theorem Script.stands (hvisits : (scriptJob script).Visits unit signals position) :
    (script unit).Stands unit signals position := by
  induction hvisits with
  | start => exact ⟨rfl, rfl⟩
  | follow _ follows ih => exact ih.follow follows

/-- A unit ends where its script does, having sent all its signals. -/
theorem Script.finishes {state : ScriptState} {outcome : Outcome}
    (hvisits : (scriptJob script).Visits unit signals (.ready state))
    (hnext : (scriptJob script).next state = .finish outcome) :
    outcome = (script unit).outcome ∧ signals = signalsOf (script unit).acts := by
  have hstands := Script.stands hvisits
  cases state with
  | beginning unit' => cases hnext
  | following rest =>
      obtain ⟨_ | ⟨_ | _, acts⟩, outcome'⟩ := rest <;> cases hnext
      exact ⟨hstands.2.1, hstands.2.2⟩

end Pool
end ApiSchema
