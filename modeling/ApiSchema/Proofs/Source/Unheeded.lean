import ApiSchema.Proofs.Source.Pruned
import Mathlib.Logic.Relation

/-!
Documents that differ in members that nothing is made of.

Such members are put into schemas, or taken out, and into objects under `discriminator`, `xml` and
`externalDocs`, as many and as deep as one likes. What is loaded from two documents that differ so
is the same but for the values of nested schemas, and these differ so again.
-/

namespace ApiSchema

open Source (Schema Fragment load)

namespace Source

/-- Where a value stands in a document: it is a schema, or the value of a keyword. -/
inductive Site where
  | schema
  | value (shape : Shape)

/-- Whether an object there makes anything of a member of that name. -/
def Site.heeds : Site → String → Bool
  | .schema, key => Source.heeds key
  | .value shape, key => shape.heeds key

/-- The value without members that nothing is made of. -/
def Site.prune : Site → Json → Json
  | .schema => pruneSchema
  | .value shape => pruneValue shape

/-- One value has a member more than another, somewhere, that nothing is made of. -/
inductive Inserts : Site → Json → Json → Prop
  | here {site : Site} {front rest : OrderedMap Json} {key : String} {value : Json}
      (unheeded : site.heeds key = false) :
      Inserts site (.obj (front ++ rest)) (.obj (front ++ (key, value) :: rest))
  | keyword {k : Keyword} {front rest : OrderedMap Json} {v w : Json}
      (below : Inserts (.value k.shape) v w) :
      Inserts .schema (.obj (front ++ (k.name, v) :: rest)) (.obj (front ++ (k.name, w) :: rest))
  | item {shape : Shape} {front rest : List Json} {v w : Json}
      (list : shape = .schemas ∨ shape = .schemaOrSchemas) (below : Inserts .schema v w) :
      Inserts (.value shape) (.arr (front ++ v :: rest)) (.arr (front ++ w :: rest))
  | lone {v w : Json} (below : Inserts .schema v w) : Inserts (.value .schemaOrSchemas) v w
  | property {key : String} {front rest : OrderedMap Json} {v w : Json}
      (below : Inserts .schema v w) :
      Inserts (.value .properties) (.obj (front ++ (key, v) :: rest))
        (.obj (front ++ (key, w) :: rest))

/-- Two documents differ in members that nothing is made of. -/
def DifferUnheeded : Json → Json → Prop :=
  Relation.EqvGen (Inserts .schema)

variable {v w : Json} {f g : Fragment} {path : List Step} {count : Nat}

theorem Inserts.objects (h : Inserts .schema v w) :
    ∃ members members', v = .obj members ∧ w = .obj members' := by
  cases h with
  | here => exact ⟨_, _, rfl, rfl⟩
  | keyword => exact ⟨_, _, rfl, rfl⟩

/-- An object under a keyword has members that nothing is made of only if it has no nested schemas.
-/
theorem pruneValue_of_not_heeds {shape : Shape} {key : String} (h : shape.heeds key = false)
    (members : OrderedMap Json) :
    pruneValue shape (.obj members) = .obj (members.filter fun m => shape.heeds m.1) := by
  cases shape with
  | schemaOrSchemas => cases h
  | properties => cases h
  | _ => rfl

/-- Pruning takes away what makes the difference. -/
theorem Inserts.prune_eq {site : Site} (h : Inserts site v w) : site.prune v = site.prune w := by
  induction h with
  | @here site front rest key value unheeded =>
      cases site with
      | schema =>
          refine congrArg Json.obj ?_
          simp only [pruneMembers_eq, List.filter_append]
          rw [List.filter_cons_of_neg (by simpa [Site.heeds] using unheeded)]
      | value shape =>
          simp only [Site.prune, pruneValue_of_not_heeds unheeded, List.filter_append]
          rw [List.filter_cons_of_neg (by simpa [Site.heeds] using unheeded)]
  | @keyword k front rest v w below ih =>
      have ih : pruneValue k.shape v = pruneValue k.shape w := ih
      refine congrArg Json.obj ?_
      simp only [pruneMembers_eq, List.filter_append]
      have hkept : ∀ w : Json, ((k.name, w) :: rest).filter (fun m => heeds m.1) =
          (k.name, w) :: rest.filter fun m => heeds m.1 :=
        fun w => List.filter_cons_of_pos (heeds_name k)
      simp only [hkept, List.map_append, List.map_cons, Keyword.ofName?_name, ih]
  | @item shape front rest v w list below ih =>
      have hitems : pruneItems (front ++ v :: rest) = pruneItems (front ++ w :: rest) := by
        have ih : pruneSchema v = pruneSchema w := ih
        simp only [pruneItems_eq, List.map_append, List.map_cons, ih]
      rcases list with rfl | rfl <;> exact congrArg Json.arr hitems
  | lone below ih =>
      obtain ⟨members, members', rfl, rfl⟩ := below.objects
      exact ih
  | @property key front rest v w below ih =>
      have ih : pruneSchema v = pruneSchema w := ih
      refine congrArg Json.obj ?_
      simp only [pruneProperties_eq, List.map_append, List.map_cons, ih]

theorem DifferUnheeded.prune_eq (h : DifferUnheeded v w) : pruneSchema v = pruneSchema w := by
  induction h with
  | rel _ _ inserts => exact inserts.prune_eq
  | refl => rfl
  | symm _ _ _ ih => exact ih.symm
  | trans _ _ _ _ _ ih ih' => exact ih.trans ih'

namespace Fragment

/-- Fragments that differ in members that nothing is made of have the same fields and the same
places. -/
theorem load_of_prune_eq (h : f.prune = g.prune) :
    (load f.origin f.value).map (Schema.map origin) =
      (load g.origin g.value).map (Schema.map origin) := by
  have hpruned : ∀ f : Fragment, (load f.origin f.value).map (Schema.map origin) =
      (load f.prune.origin f.prune.value).map (Schema.map origin) := by
    intro f
    rw [commutes_prune.load, carry_id]
    cases load f.origin f.value with
    | error e => rfl
    | ok s =>
        refine congrArg Except.ok ?_
        rw [Schema.move_id, Schema.map_map]
        rfl
  rw [hpruned, h, ← hpruned]

/-- The ways down from two fragments that differ so stop together, or come to two that differ so. -/
theorem follow_of_prune_eq (h : f.prune = g.prune) (count : Nat) (path : List Step) :
    (∃ stop, f.follow count path = .error stop ∧ g.follow count path = .error stop) ∨
      ∃ f' g', f.follow count path = .ok f' ∧ g.follow count path = .ok g' ∧
        f'.prune = g'.prune := by
  have hf := commutes_prune.follow count f path
  have hg := commutes_prune.follow count g path
  rw [h, hg] at hf
  cases hfollow : f.follow count path with
  | error stop =>
      cases hfollow' : g.follow count path with
      | error stop' =>
          obtain ⟨i, failure⟩ := stop
          obtain ⟨i', failure'⟩ := stop'
          rw [hfollow, hfollow'] at hf
          simp only [carryStop, WalkFailure.move_id] at hf
          cases hf
          exact Or.inl ⟨_, rfl, rfl⟩
      | ok g' => rw [hfollow, hfollow'] at hf; cases hf
  | ok f' =>
      cases hfollow' : g.follow count path with
      | error stop => rw [hfollow, hfollow'] at hf; cases hf
      | ok g' =>
          rw [hfollow, hfollow'] at hf
          exact Or.inr ⟨f', g', rfl, rfl, (Except.ok.inj hf).symm⟩

end Fragment
end Source
end ApiSchema
