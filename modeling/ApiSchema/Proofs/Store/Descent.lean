import ApiSchema.Proofs.Sharing.Informed
import ApiSchema.Proofs.View.Walk

/-!
Going down from a stored schema, child by child.

Each step finds a child in the schema that has been come to and asks it for a schema of its own,
while others use the store at will. Where this leads is told by the document alone: it ends at the
schema of the fragment that the path leads to, or at the step at which the path stops, and for the
same reason.
-/

namespace ApiSchema

open Source (Schema Fragment)

namespace Store

variable {store store' : Store} {id : SchemaId} {f : Fragment} {path : List Step} {count : Nat}
  {outcome : Except (Nat × WalkFailure) SchemaId}

/-- The ways down a path from a stored schema, whatever else is done to the store on the way. Steps
are counted from `count`. -/
inductive Descends : Nat → Store → SchemaId → List Step → Store →
    Except (Nat × WalkFailure) SchemaId → Prop
  | arrived {count : Nat} {store : Store} {id : SchemaId} : Descends count store id [] store (.ok id)
  | missing {count : Nat} {store : Store} {id : SchemaId} {step : Step} {rest : List Step}
      (absent : (store.schema id).step? step = none) :
      Descends count store id (step :: rest) store (.error (count, .missing))
  | failed {count : Nat} {store before : Store} {id : SchemaId} {step : Step} {rest : List Step}
      {c : ChildId} {e : LoadError} (found : (store.schema id).step? step = some c)
      (meanwhile : store.Later before) (answer : (schemaOf c before).1 = .error e) :
      Descends count store id (step :: rest) (schemaOf c before).2
        (.error (count, .failed (.build e)))
  | answered {count : Nat} {store before store' : Store} {id below : SchemaId} {step : Step}
      {rest : List Step} {c : ChildId} {outcome : Except (Nat × WalkFailure) SchemaId}
      (found : (store.schema id).step? step = some c) (meanwhile : store.Later before)
      (answer : (schemaOf c before).1 = .ok below)
      (further : Descends (count + 1) (schemaOf c before).2 below rest store' outcome) :
      Descends count store id (step :: rest) store' outcome

/-- Every path can be gone down, to its end or to a stop. -/
theorem exists_descends (count : Nat) (store : Store) (id : SchemaId) (path : List Step) :
    ∃ store' outcome, Descends count store id path store' outcome := by
  induction path generalizing count store id with
  | nil => exact ⟨store, _, .arrived⟩
  | cons step rest ih =>
      cases hfound : (store.schema id).step? step with
      | none => exact ⟨store, _, .missing hfound⟩
      | some c =>
          cases hanswer : (schemaOf c store).1 with
          | error e => exact ⟨_, _, .failed hfound .now hanswer⟩
          | ok below =>
              obtain ⟨store', outcome, hfurther⟩ := ih (count + 1) (schemaOf c store).2 below
              exact ⟨store', outcome, .answered hfound .now hanswer hfurther⟩

/-- What a way down comes to, by the document. -/
inductive Reaches (count : Nat) (f : Fragment) (path : List Step) (store : Store) :
    Except (Nat × WalkFailure) SchemaId → Prop
  | arrived {g : Fragment} {id : SchemaId} (follows : f.follow count path = .ok g)
      (stored : g.StoredAt store id) : Reaches count f path store (.ok id)
  | stopped {stop : Nat × WalkFailure} (follows : f.follow count path = .error stop) :
      Reaches count f path store (.error stop)

/-- A path is gone down in a store as it is in the document. -/
theorem Descends.reaches (h : Descends count store id path store' outcome) (hsound : store.Sound)
    (hstored : f.StoredAt store id) : Reaches count f path store' outcome := by
  induction h generalizing f with
  | arrived => exact .arrived rfl hstored
  | @missing count store id step rest absent =>
      have hstep := hstored.step?_eq step
      rw [absent] at hstep
      have hnone : f.step? step = none := Option.map_eq_none_iff.mp hstep.symm
      exact .stopped (by rw [Fragment.follow, hnone])
  | @failed count store before id step rest c e found meanwhile answer =>
      obtain ⟨g, hnests, hfragment⟩ := hstored.nests found
      have hgrows := meanwhile.grows
      have hsettles := schemaOf_settles (hgrows.sound hsound) (hgrows.fragment? hfragment)
      rw [answer] at hsettles
      have hbuild : g.build = .error e := hsettles
      exact .stopped (by rw [Fragment.follow, hnests.step?]; simp only [hbuild])
  | @answered count store before store' id below step rest c outcome found meanwhile answer _ ih =>
      obtain ⟨g, hnests, hfragment⟩ := hstored.nests found
      have hgrows := meanwhile.grows
      have hasked := schemaOf_grows c before
      have hsettles := schemaOf_settles (hgrows.sound hsound) (hgrows.fragment? hfragment)
      rw [answer] at hsettles
      have hbelow := Sharing.storedAt_of_settles hsettles
      obtain ⟨s, hbuild, _⟩ := hsettles
      have hfollow : f.follow count (step :: rest) = g.follow (count + 1) rest := by
        rw [Fragment.follow, hnests.step?]
        simp only [hbuild]
      have hsound' := hasked.sound (hgrows.sound hsound)
      cases ih hsound' hbelow with
      | arrived follows stored => exact .arrived (hfollow.trans follows) stored
      | stopped follows => exact .stopped (hfollow.trans follows)

theorem Holds.storedAt {p : Pointer} {v : Json} (h : Holds p v id store) :
    Fragment.StoredAt ⟨p, v⟩ store id :=
  h.shows

end Store
end ApiSchema
