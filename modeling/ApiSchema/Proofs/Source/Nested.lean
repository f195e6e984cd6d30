import ApiSchema.Proofs.Json.Extent
import ApiSchema.Proofs.Source.Reading

/-!
Where the nested schemas of a schema object stand in the document.

`Fragment.elements` and `Fragment.entries` find them in the value of the object itself: the items of
the lists under the applicators, a lone object in place of a list, and the members under
`properties`. A loaded schema holds these nested schemas, in the same order.
-/

namespace ApiSchema

/-- Whether a lone schema may stand in place of the list. -/
def Applicator.allowsLone : Applicator → Bool
  | .not | .items => true
  | _ => false

namespace Source

variable {p : Pointer} {v w : Json} {members : OrderedMap Json} {s : Schema Fragment}
  {f : Fragment}

namespace Fragment

/-- The nested schemas under an applicator. -/
def elements (f : Fragment) (a : Applicator) : List Fragment :=
  match f.value.member? a.name with
  | some (.arr items) =>
    items.mapIdx fun index item => ⟨(f.origin.child a.name).element index, item⟩
  | some (.obj members) => if a.allowsLone then [⟨f.origin.child a.name, .obj members⟩] else []
  | _ => []

theorem elements_of_absent {a : Applicator} (h : f.value.member? a.name = none) :
    f.elements a = [] := by
  rw [elements, h]

theorem elements_of_list {a : Applicator} {items : List Json}
    (h : f.value.member? a.name = some (.arr items)) :
    f.elements a =
      items.mapIdx fun index item => ⟨(f.origin.child a.name).element index, item⟩ := by
  rw [elements, h]

theorem elements_of_lone {a : Applicator} {members : OrderedMap Json} (ha : a.allowsLone = true)
    (h : f.value.member? a.name = some (.obj members)) :
    f.elements a = [⟨f.origin.child a.name, .obj members⟩] := by
  rw [elements, h]
  exact if_pos ha

def entries (f : Fragment) : List (String × Fragment) :=
  match f.value.member? "properties" with
  | some (.obj members) =>
    members.map fun m => (m.1, ⟨(f.origin.child "properties").child m.1, m.2⟩)
  | _ => []

theorem entries_of_absent (h : f.value.member? "properties" = none) : f.entries = [] := by
  rw [entries, h]

theorem entries_of_object {members : OrderedMap Json}
    (h : f.value.member? "properties" = some (.obj members)) :
    f.entries = members.map fun m => (m.1, ⟨(f.origin.child "properties").child m.1, m.2⟩) := by
  rw [entries, h]

end Fragment

/-- What a schema holds under an applicator is read from a list, or from a lone object where that is
allowed. -/
theorem Schema.Reads.applied (h : s.Reads p members) (a : Applicator) :
    Keeps (fun w xs => IsFragments (p.child a.name) w xs ∨ a.allowsLone = true ∧
      (∃ members, w = .obj members) ∧ xs = [⟨⟨p.child a.name, w⟩, p.child a.name⟩])
      p members a.name (s.applied a) := by
  have himp : ∀ {key : String} {reads reads' : Json → List (Element Fragment) → Prop} {field},
      (∀ w xs, reads w xs → reads' w xs) → Keeps reads p members key field →
        Keeps reads' p members key field := by
    intro key reads reads' field hreads hkeeps
    unfold Keeps at hkeeps ⊢
    split at hkeeps
    · trivial
    · exact ⟨hkeeps.1, hkeeps.2.1, hreads _ _ hkeeps.2.2⟩
    · exact hkeeps
  cases a with
  | allOf => exact himp (fun _ _ => Or.inl) (h.fields .allOf)
  | oneOf => exact himp (fun _ _ => Or.inl) (h.fields .oneOf)
  | anyOf => exact himp (fun _ _ => Or.inl) (h.fields .anyOf)
  | not => exact himp (fun _ _ => Or.imp_right (⟨rfl, ·⟩)) (h.fields .not)
  | items => exact himp (fun _ _ => Or.imp_right (⟨rfl, ·⟩)) (h.fields .items)

/-- The elements that are read from a list are its items. -/
theorem IsFragments.eq {xs : List (Element Fragment)} {items : List Json}
    (h : IsFragments p (.arr items) xs) :
    xs = (items.mapIdx fun index item => Fragment.mk (p.element index) item).map fun g =>
      ⟨g, g.origin⟩ := by
  obtain ⟨hitems, hnumbered, horigins⟩ := h
  rw [Json.arr.inj hitems]
  apply List.ext_getElem?
  intro i
  simp only [List.getElem?_map, List.getElem?_mapIdx, Option.map_map]
  cases hi : xs[i]? with
  | none => rfl
  | some e =>
      have horigin := hnumbered i e hi
      have hvalue := horigins e (List.mem_of_getElem? hi)
      rw [horigin] at hvalue
      obtain ⟨⟨origin, value⟩, place⟩ := e
      cases horigin
      cases hvalue
      rfl

/-- The entries that are read from an object are its members. -/
theorem Keyed.eq {xs : List (Entry Fragment)} (h : Keyed p xs)
    (horigins : ∀ e ∈ xs, e.value.origin = e.valueAt) :
    xs = ((xs.map fun e => (e.key, e.value.value)).map fun m =>
      (m.1, Fragment.mk (p.child m.1) m.2)).map fun m => ⟨m.1, m.2.origin, m.2, m.2.origin⟩ := by
  rw [List.map_map, List.map_map]
  refine (List.map_id xs).symm.trans (List.map_congr_left fun e he => ?_)
  obtain ⟨hkeyAt, hvalueAt⟩ := h e he
  have horigin := horigins e he
  obtain ⟨key, keyAt, ⟨origin, value⟩, valueAt⟩ := e
  obtain rfl : keyAt = p.child key := hkeyAt
  obtain rfl : valueAt = p.child key := hvalueAt
  obtain rfl : origin = p.child key := horigin
  rfl

/-- A loaded schema holds the nested schemas of its object, list by list. -/
theorem load_elements (h : load f.origin f.value = .ok s) (a : Applicator) :
    s.elements a = (f.elements a).map fun g => ⟨g, g.origin⟩ := by
  obtain ⟨members, hvalue, hreads⟩ := load_reads h
  have hmember : f.value.member? a.name = OrderedMap.get? a.name members := by rw [hvalue]; rfl
  unfold Schema.elements Fragment.elements
  rw [hmember]
  rcases (hreads.applied a).cases with ⟨hmember, hfield⟩ | ⟨w, field, hmember, hfield, _, _, hxs⟩
  · rw [hmember, hfield]
    rfl
  · rw [hmember, hfield]
    rcases hxs with hxs | ⟨hlone, ⟨inner, rfl⟩, hxs⟩
    · obtain rfl := hxs.1
      exact hxs.eq
    · simp only [hlone, if_true, hxs]
      rfl

theorem load_entries (h : load f.origin f.value = .ok s) :
    s.entries = f.entries.map fun e => ⟨e.1, e.2.origin, e.2, e.2.origin⟩ := by
  obtain ⟨members, hvalue, hreads⟩ := load_reads h
  have hmember : f.value.member? "properties" = OrderedMap.get? "properties" members := by
    rw [hvalue]
    rfl
  unfold Schema.entries Fragment.entries
  rw [hmember]
  rcases (hreads.fields .properties).cases with
    ⟨hmember, hfield⟩ | ⟨w, field, hmember, hfield, _, _, rfl, hkeyed, horigins⟩
  · have hmember : OrderedMap.get? "properties" members = none := hmember
    have hfield : s.properties = none := hfield
    rw [hmember, hfield]
    rfl
  · have hmember : OrderedMap.get? "properties" members = some _ := hmember
    have hfield : s.properties = some field := hfield
    rw [hmember, hfield]
    exact hkeyed.eq horigins

end Source
end ApiSchema
