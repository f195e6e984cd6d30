import ApiSchema.Proofs.Json.Parsed
import ApiSchema.Yaml.Reader

/-!
No object of a value that is read from a YAML text repeats a key.

A scalar never stands for an object. The members of a mapping are collected one after the other,
and a repeated key takes the place of the one before.
-/

namespace ApiSchema
namespace Yaml

variable {α β : Type}

/-- Whatever a computation gives has a property. -/
def Gives (x : StateT Nat Option α) (post : α → Prop) : Prop :=
  ∀ n a n', x n = some (a, n') → post a

namespace Gives

variable {x : StateT Nat Option α} {post : α → Prop}

theorem any (x : StateT Nat Option α) : Gives x fun _ => True :=
  fun _ _ _ _ => trivial

theorem failure (post : α → Prop) : Gives (failure : StateT Nat Option α) post :=
  nofun

theorem pure {a : α} (h : post a) : Gives (Pure.pure a : StateT Nat Option α) post := by
  intro n a' n' hrun
  cases hrun
  exact h

theorem bind {f : α → StateT Nat Option β} {post' : β → Prop} (h : Gives x post)
    (h' : ∀ a, post a → Gives (f a) post') : Gives (x >>= f) post' := by
  intro n b n' hrun
  obtain ⟨⟨a, n⟩, ha, hb⟩ := Option.bind_eq_some_iff.mp hrun
  exact h' a (h _ _ _ ha) _ _ _ hb

theorem mapM {f : α → StateT Nat Option β} (post : β → Prop) (h : ∀ a, Gives (f a) post)
    (xs : List α) : Gives (xs.mapM f) fun ys => ∀ y ∈ ys, post y := by
  induction xs with
  | nil => exact pure (List.forall_mem_nil _)
  | cons x xs ih =>
      rw [List.mapM_cons]
      exact (h x).bind fun y hy => ih.bind fun ys hys => pure (List.forall_mem_cons.mpr ⟨hy, hys⟩)

end Gives

theorem real?_distinct {text : String} {v : Json} (h : real? text = some v) : v.Distinct := by
  unfold real? at h
  dsimp only at h
  split at h
  · cases h
    exact .null
  · split at h
    all_goals
      obtain ⟨x, _, h⟩ := Option.bind_eq_some_iff.mp h
      split at h
      · cases h
        exact .real x
      · cases h

theorem integerValue?_distinct {text : String} {value : Option Json} {v : Json}
    (h : integerValue? text = some value) (hv : value = some v) : v.Distinct := by
  subst hv
  unfold integerValue? at h
  split at h
  · cases h
  · split at h
    · cases h
      exact .integer _
    · cases h
    · cases h

theorem untagged_distinct {text : String} {v : Json} (h : untagged text = some v) : v.Distinct := by
  unfold untagged at h
  split at h
  · cases h
    exact .null
  · split at h
    · cases h
      exact .bool _
    · split at h
      next value hvalue => exact integerValue?_distinct hvalue h
      next =>
        split at h
        · cases h
          exact .str text
        · cases hreal : real? text with
          | none =>
              rw [hreal] at h
              cases h
              exact .str text
          | some value =>
              rw [hreal] at h
              cases h
              exact real?_distinct hreal

theorem tagged_distinct {tag : Tag} {text : String} {v : Json} (h : tagged tag text = some v) :
    v.Distinct := by
  unfold tagged at h
  split at h
  · obtain ⟨b, _, rfl⟩ := Option.map_eq_some_iff.mp h
    exact .bool b
  · cases hvalue : integerValue? text with
    | none =>
        rw [hvalue] at h
        cases h
    | some value =>
        rw [hvalue] at h
        exact integerValue?_distinct hvalue h
  · exact real?_distinct h
  · split at h
    · cases h
      exact .null
    · cases h
  · cases h
    exact .str text

theorem implied_distinct {plain : Bool} {text : String} {v : Json}
    (h : implied plain text = some v) : v.Distinct := by
  unfold implied at h
  split at h
  · exact untagged_distinct h
  · cases h
    exact .str text

theorem scalarValue_distinct {tag : Option Tag} {plain : Bool} {text : String} {v : Json}
    (h : scalarValue tag plain text = some v) : v.Distinct := by
  unfold scalarValue at h
  split at h
  · split at h
    · cases h
    · split at h
      · exact implied_distinct h
      · exact tagged_distinct h
  · exact implied_distinct h

/-- Entries collected one after the other do not repeat a key. -/
theorem ofEntries_distinct {entries : List (String × Json)} (h : ∀ e ∈ entries, e.2.Distinct) :
    Json.DistinctMembers (OrderedMap.ofEntries entries) := by
  have hfold : ∀ members : OrderedMap Json, Json.DistinctMembers members → Json.DistinctMembers
      (entries.foldl (fun map e => OrderedMap.insert e.1 e.2 map) members) := by
    induction entries with
    | nil => exact fun _ => id
    | cons e rest ih =>
        obtain ⟨hfirst, hrest⟩ := List.forall_mem_cons.mp h
        exact fun members hmembers => ih hrest _ (hmembers.insert hfirst)
  exact hfold [] Json.distinctMembers_nil

theorem scalar_distinct (tag : Option Tag) (plain : Bool) (text : String) :
    Gives (match scalarValue tag plain text with
      | some value => pure value
      | none => failure) Json.Distinct := by
  cases hvalue : scalarValue tag plain text with
  | none => exact .failure _
  | some value => exact .pure (scalarValue_distinct hvalue)

/-- The value of a node repeats no key. -/
theorem value_distinct (d : Document) (depth : Nat) (node : Node Nat) :
    Gives (d.value depth node) Json.Distinct := by
  induction depth generalizing node with
  | zero =>
      rw [Document.value.eq_def]
      refine (Gives.any _).bind fun node _ => ?_
      cases node with
      | scalar anchor tag plain text => exact scalar_distinct tag plain text
      | _ => exact .failure _
  | succ depth ih =>
      rw [Document.value.eq_def]
      refine (Gives.any _).bind fun node _ => ?_
      cases node with
      | scalar anchor tag plain text => exact scalar_distinct tag plain text
      | sequence anchor tag items =>
          dsimp only
          split
          · exact .failure _
          · exact (Gives.mapM Json.Distinct ih items).bind fun values hvalues => .pure (.arr hvalues)
      | mapping anchor tag pairs =>
          dsimp only
          split
          · exact .failure _
          · refine (Gives.mapM (fun m => m.2.Distinct) (fun pair => ?_) pairs).bind
              fun members hmembers => ?_
            · exact (Gives.any _).bind fun key _ =>
                (ih pair.2).bind fun value hvalue => .pure hvalue
            · obtain ⟨hkeys, hvalues⟩ := ofEntries_distinct hmembers
              exact .pure (.obj hkeys hvalues)
      | _ => exact .failure _

/-- No object of a value that is read from a YAML text repeats a key. -/
theorem parse?_distinct {text : String} {v : Json} (h : parse? text = some v) : v.Distinct := by
  obtain ⟨tokens, _, h⟩ := Option.bind_eq_some_iff.mp h
  obtain ⟨document, _, h⟩ := Option.bind_eq_some_iff.mp h
  cases document with
  | none =>
      cases h
      exact .null
  | some node =>
      obtain ⟨d, _, h⟩ := Option.bind_eq_some_iff.mp h
      obtain ⟨⟨value, n⟩, hvalue, h⟩ := Option.bind_eq_some_iff.mp h
      cases h
      exact value_distinct d _ _ _ _ _ hvalue

end Yaml
end ApiSchema
