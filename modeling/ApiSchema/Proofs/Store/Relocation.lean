import ApiSchema.Proofs.Source.Transport
import ApiSchema.Proofs.Store.Descent

/-!
A document can be loaded at any place.

Put below another place, a document gives the same schemas and the same errors, with all their
places put below that too. This stays so for whatever is built from it later, along every path,
since children take their places from the schema that they stand in.
-/

namespace ApiSchema

open Source (Schema Fragment Transport carry load)

/-- The place with a text put before it. -/
def Pointer.under (text : String) (q : Pointer) : Pointer :=
  ⟨text ++ q.text⟩

def Source.Fragment.under (text : String) (f : Fragment) : Fragment :=
  ⟨f.origin.under text, f.value⟩

namespace Source

variable {text : String} {p q : Pointer} {v w : Json}

/-- Every place is put below another, and the document stays as it is. -/
def Transport.under (text : String) : Transport where
  place := Pointer.under text
  value := Fragment.value
  place_child p key := by simp [Pointer.under, Pointer.child, String.append_assoc]
  place_element p index := by simp [Pointer.under, Pointer.element, String.append_assoc]
  isObject_value _ := rfl

theorem Transport.items_under (items : List Json) : (Transport.under text).items p items = items := by
  apply List.ext_getElem?
  intro i
  rw [Transport.items, List.getElem?_mapIdx]
  exact Option.map_id'

theorem Transport.refill_under (p : Pointer) (v : Json) :
    (Transport.under text).refill p v = v := by
  have hshape : ∀ (q : Pointer) (w : Json) (shape : Shape),
      shape.refill (Transport.under text) q w = w := by
    intro q w shape
    cases shape with
    | schemas =>
        cases w with
        | arr items => exact congrArg Json.arr (items_under items)
        | _ => rfl
    | schemaOrSchemas =>
        cases w with
        | arr items => exact congrArg Json.arr (items_under items)
        | _ => rfl
    | properties => cases w <;> simp [Shape.refill, Transport.under]
    | _ => rfl
  cases v with
  | obj members =>
      have hmember : ∀ key w, (Transport.under text).member p key w = w := by
        intro key w
        unfold Transport.member
        split
        · exact hshape _ _ _
        · rfl
      simp [Transport.refill, hmember]
  | _ => rfl

theorem Fragment.commutes_under (text : String) :
    Fragment.Commutes (Pointer.under text) (Fragment.under text) := by
  have hwhole : ∀ f : Fragment, (Transport.under text).whole f = f.under text := by
    intro f
    rw [Transport.whole, Transport.refill_under]
    rfl
  refine ⟨fun _ => rfl, fun f step => ?_, fun f => ?_, fun f => ?_⟩
  · rw [← hwhole, Transport.step?_whole]
    rfl
  · rw [← hwhole, Transport.reference?_whole]
  · have hload := Transport.load_refill (Transport.under text) f.origin f.value
    rwa [Transport.refill_under] at hload

end Source

namespace Store

variable {store store' after after' : Store} {id id' : SchemaId} {path : List Step} {f : Fragment}
  {outcome outcome' : Except (Nat × WalkFailure) SchemaId}

/-- Two ways down have come to the same: to a stop at the same step and for the same reason, moved,
or to schemas that are the same, moved. -/
inductive Parallel (place : Pointer → Pointer) (change : Fragment → Fragment)
    (after after' : Store) :
    Except (Nat × WalkFailure) SchemaId → Except (Nat × WalkFailure) SchemaId → Prop
  | stopped (step : Nat) (failure : WalkFailure) :
      Parallel place change after after' (.error (step, failure))
        (.error (step, failure.move place))
  | arrived {i j : SchemaId} {s : Schema Fragment} (shows : after.Shows i s)
      (shows' : after'.Shows j (s.move place change)) :
      Parallel place change after after' (.ok i) (.ok j)

/-- The ways down from a schema and from the same schema, moved, keep together. -/
theorem Reaches.parallel {place : Pointer → Pointer} {change : Fragment → Fragment} {count : Nat}
    (hcommutes : Fragment.Commutes place change) (h : Reaches count f path after outcome)
    (h' : Reaches count (change f) path after' outcome') :
    Parallel place change after after' outcome outcome' := by
  have hfollow := hcommutes.follow count f path
  cases h with
  | @stopped stop follows =>
      rw [follows] at hfollow
      cases h' with
      | stopped follows' =>
          cases hfollow.symm.trans follows'
          exact .stopped stop.1 stop.2
      | arrived follows' _ => cases hfollow.symm.trans follows'
  | @arrived g i follows stored =>
      rw [follows] at hfollow
      obtain ⟨s, hload, hshows⟩ := stored
      cases h' with
      | stopped follows' => cases hfollow.symm.trans follows'
      | arrived follows' stored' =>
          cases hfollow.symm.trans follows'
          obtain ⟨t, hload', hshows'⟩ := stored'
          rw [hcommutes.load, hload] at hload'
          cases hload'
          exact .arrived hshows hshows'

/-- A document at `q` and the same document with a text put before its place. -/
structure Relocates (text : String) (q : Pointer) (v : Json) : Prop where
  /-- It loads as before or is refused as before, with the text put before every place. -/
  loaded : load (q.under text) v =
    carry (Pointer.under text) (Schema.move (Pointer.under text) (Fragment.under text)) (load q v)
  /-- So it is after every chain of dereferences, whatever else is done to the stores on the way. -/
  descended : ∀ {id id' store store' after after' path outcome outcome'},
    Holds q v id store → Holds (q.under text) v id' store' →
      Descends 0 store id path after outcome → Descends 0 store' id' path after' outcome' →
        Parallel (Pointer.under text) (Fragment.under text) after after' outcome outcome'
  /-- Every chain can be carried out. -/
  possible : ∀ store id path, ∃ after outcome, Descends 0 store id path after outcome

/-- The loader is the same at all places, and so is all that is built later on. -/
theorem relocates (text : String) (q : Pointer) (v : Json) : Relocates text q v := by
  have hcommutes := Fragment.commutes_under text
  refine ⟨hcommutes.load ⟨q, v⟩, fun hholds hholds' hdescends hdescends' => ?_,
    fun store id path => exists_descends 0 store id path⟩
  have hreaches := hdescends.reaches hholds.sound hholds.storedAt
  have hreaches' := hdescends'.reaches hholds'.sound hholds'.storedAt
  exact hreaches.parallel hcommutes hreaches'

end Store
end ApiSchema
