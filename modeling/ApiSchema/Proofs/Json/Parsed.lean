import ApiSchema.Json.Reader
import ApiSchema.Proofs.Except
import ApiSchema.Proofs.Json.Distinct
import ApiSchema.Proofs.OrderedMap

/-!
No object of a value that is read from a JSON text repeats a key.

The readers of values, items and members call one another, each with fewer steps to go. What they
give is told for all of them at once, by induction on the steps.
-/

namespace ApiSchema
namespace Json

/-- The members of an object read so far: no key is repeated, here or further down. -/
def DistinctMembers (members : OrderedMap Json) : Prop :=
  (OrderedMap.keys members).Nodup ∧ ∀ m ∈ members, m.2.Distinct

theorem distinctMembers_nil : DistinctMembers [] :=
  ⟨List.nodup_nil, List.forall_mem_nil _⟩

theorem DistinctMembers.insert {members : OrderedMap Json} {key : String} {value : Json}
    (h : DistinctMembers members) (hvalue : value.Distinct) :
    DistinctMembers (OrderedMap.insert key value members) := by
  refine ⟨OrderedMap.nodup_keys_insert h.1, fun m hm => ?_⟩
  rcases OrderedMap.mem_insert hm with hold | rfl
  · exact h.2 m hold
  · exact hvalue

/-- A computation that gives nothing but values in which no object repeats a key. -/
def Yields (x : Except Fault (Json × Cursor)) : Prop :=
  ∀ v c, x = .ok (v, c) → v.Distinct

theorem yields_error (fault : Fault) : Yields (.error fault) :=
  nofun

theorem yields_ok {v : Json} (h : v.Distinct) (c : Cursor) : Yields (.ok (v, c)) := by
  intro v' c' heq
  cases heq
  exact h

theorem toReal?_distinct {d : Digits} {sign : Bool} {v : Json} (h : d.toReal? sign = some v) :
    v.Distinct := by
  obtain ⟨x, _, rfl⟩ := Option.map_eq_some_iff.mp h
  exact .real _

theorem scanExponent_yields (sign : Bool) (d : Digits) (c : Cursor) :
    Yields (scanExponent sign d c) := by
  unfold scanExponent
  dsimp only
  repeat' split
  all_goals first
    | exact yields_error _
    | exact yields_ok (.real _) _
    | exact yields_ok (toReal?_distinct ‹_›) _

theorem scanNumber_yields (c : Cursor) : Yields (scanNumber c) := by
  unfold scanNumber
  dsimp only
  repeat' split
  all_goals first
    | exact yields_error _
    | exact yields_ok (.integer _) _
    | exact yields_ok (.real _) _
    | exact scanExponent_yields _ _ _

/-- What each of the readers gives, by the number of steps that it may take. -/
structure ReadersYield (steps : Nat) : Prop where
  value : ∀ room c, Yields (readValue steps room c)
  items : ∀ room first c items c', readItems steps room first c = .ok (items, c') →
    ∀ item ∈ items, item.Distinct
  members : ∀ room first read c members c', DistinctMembers read →
    readMembers steps room first read c = .ok (members, c') → DistinctMembers members
  member : ∀ room read c members c', DistinctMembers read →
    readMember steps room read c = .ok (members, c') → DistinctMembers members

namespace ReadersYield

variable {steps : Nat}

theorem value_succ (h : ReadersYield steps) (room : Nat) (c : Cursor) :
    Yields (readValue (steps + 1) room c) := by
  rw [readValue.eq_def]
  dsimp only
  split
  · exact yields_error _
  · intro v c' hread
    obtain ⟨_, _, hread⟩ := bind_ok hread
    cases hread
    exact .null
  · intro v c' hread
    obtain ⟨_, _, hread⟩ := bind_ok hread
    cases hread
    exact .bool true
  · intro v c' hread
    obtain ⟨_, _, hread⟩ := bind_ok hread
    cases hread
    exact .bool false
  · intro v c' hread
    obtain ⟨⟨s, _⟩, _, hread⟩ := bind_ok hread
    cases hread
    exact .str s
  · split
    · exact yields_error _
    · intro v c' hread
      obtain ⟨⟨items, _⟩, hitems, hread⟩ := bind_ok hread
      cases hread
      exact .arr (h.items _ _ _ _ _ hitems)
  · split
    · exact yields_error _
    · intro v c' hread
      obtain ⟨⟨members, _⟩, hmembers, hread⟩ := bind_ok hread
      cases hread
      obtain ⟨hkeys, hvalues⟩ := h.members _ _ _ _ _ _ distinctMembers_nil hmembers
      exact .obj hkeys hvalues
  · split
    · exact scanNumber_yields _
    · exact yields_error _

/-- One more item and those after it. -/
theorem item_cons (h : ReadersYield steps) {room : Nat} {c c' : Cursor} {items : List Json}
    (hread : (do
      let (item, c) ← readValue steps room c
      let (items, c) ← readItems steps room false c
      return (item :: items, c)) = .ok (items, c')) : ∀ item ∈ items, item.Distinct := by
  obtain ⟨⟨item, c⟩, hitem, hread⟩ := bind_ok hread
  obtain ⟨⟨rest, c⟩, hrest, hread⟩ := bind_ok hread
  cases hread
  exact List.forall_mem_cons.mpr ⟨h.value _ _ _ _ hitem, h.items _ _ _ _ _ hrest⟩

theorem items_succ (h : ReadersYield steps) {room : Nat} {first : Bool} {c c' : Cursor}
    {items : List Json} (hread : readItems (steps + 1) room first c = .ok (items, c')) :
    ∀ item ∈ items, item.Distinct := by
  rw [readItems.eq_def] at hread
  dsimp only at hread
  split at hread
  · cases hread
  · cases hread
    exact List.forall_mem_nil _
  · split at hread
    · exact h.item_cons hread
    · split at hread
      · split at hread
        · cases hread
        · exact h.item_cons hread
      · cases hread

theorem members_succ (h : ReadersYield steps) {room : Nat} {first : Bool} {c c' : Cursor}
    {read members : OrderedMap Json} (hbefore : DistinctMembers read)
    (hread : readMembers (steps + 1) room first read c = .ok (members, c')) :
    DistinctMembers members := by
  rw [readMembers.eq_def] at hread
  dsimp only at hread
  split at hread
  · cases hread
  · cases hread
    exact hbefore
  · split at hread
    · exact h.member _ _ _ _ _ hbefore hread
    · split at hread
      · split at hread
        · cases hread
        · cases hread
        · exact h.member _ _ _ _ _ hbefore hread
      · cases hread

theorem member_succ (h : ReadersYield steps) {room : Nat} {c c' : Cursor}
    {read members : OrderedMap Json} (hbefore : DistinctMembers read)
    (hread : readMember (steps + 1) room read c = .ok (members, c')) :
    DistinctMembers members := by
  rw [readMember.eq_def] at hread
  dsimp only at hread
  split at hread
  · obtain ⟨⟨key, c⟩, _, hread⟩ := bind_ok hread
    dsimp only at hread
    split at hread
    · cases hread
    · obtain ⟨⟨value, c⟩, hvalue, hread⟩ := bind_ok hread
      exact h.members _ _ _ _ _ _ (hbefore.insert (h.value _ _ _ _ hvalue)) hread
    · cases hread
  · cases hread

end ReadersYield

/-- The readers give nothing but values in which no object repeats a key. -/
theorem readersYield (steps : Nat) : ReadersYield steps := by
  induction steps with
  | zero =>
      refine ⟨fun room c => ?_, fun _ _ _ _ _ h => ?_, fun _ _ _ _ _ _ _ h => ?_,
        fun _ _ _ _ _ _ h => ?_⟩
      · rw [readValue.eq_def]
        exact yields_error _
      · rw [readItems.eq_def] at h
        cases h
      · rw [readMembers.eq_def] at h
        cases h
      · rw [readMember.eq_def] at h
        cases h
  | succ steps ih =>
      exact ⟨ih.value_succ, fun _ _ _ _ _ => ih.items_succ, fun _ _ _ _ _ _ => ih.members_succ,
        fun _ _ _ _ _ => ih.member_succ⟩

/-- No object of a value that is read from a JSON text repeats a key. -/
theorem parse_distinct {text : String} {v : Json} (h : parse text = .ok v) : v.Distinct := by
  obtain ⟨⟨value, c⟩, hvalue, h⟩ := bind_ok h
  obtain ⟨_, _, h⟩ := bind_ok h
  cases h
  exact (readersYield _).value _ _ _ _ hvalue

end Json
end ApiSchema
