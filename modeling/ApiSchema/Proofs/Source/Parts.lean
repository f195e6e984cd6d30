import ApiSchema.Proofs.Json.Equivalence
import ApiSchema.Proofs.Source.Children
import ApiSchema.Proofs.Source.Reading

/-!
What a schema holds.

A schema is made of texts, flags and places, and of parts that take more care to compare: nested
schemas, numbers and JSON values. `Schema.Holds` tells which parts a schema has, whatever the
keyword they stand under. The parts of a loaded schema are parts of the value that it was loaded
from.
-/

namespace ApiSchema
namespace Source

/-- A part of a schema that is not plain data. -/
inductive Part (C : Type) where
  | nested (child : C)
  | number (x : Binary64)
  | value (v : Json)

variable {C D : Type}

/-- Replaces a nested schema. -/
def Part.map (f : C → D) : Part C → Part D
  | .nested c => .nested (f c)
  | .number x => .number x
  | .value v => .value v

/-- Numbers and JSON values are such as can be there, and nested schemas have a given property. -/
def Part.Proper (P : C → Prop) : Part C → Prop
  | .nested c => P c
  | .number x => x.isNan = false
  | .value v => v.Genuine

end Source

/-- A part stands in a value of a shape. -/
def Shape.Holds {C : Type} (part : Source.Part C) : (shape : Shape) → shape.Value C → Prop
  | .number => fun x => part = .number x
  | .values => fun xs => ∃ e ∈ xs, part = .value e.value
  | .schemas | .schemaOrSchemas => fun xs => ∃ e ∈ xs, part = .nested e.value
  | .properties => fun xs => ∃ e ∈ xs, part = .nested e.value
  | .any => fun v => part = .value v
  | .xml => fun x => ∃ e ∈ x.extensions, part = .value e.value
  | .externalDocs => fun d => ∃ e ∈ d.extensions, part = .value e.value
  | .text | .natural | .flag | .names | .discriminator => fun _ => False

namespace Source

variable {C D : Type} {P Q : C → Prop}

/-- A part stands in a schema. -/
inductive Schema.Holds (s : Schema C) (part : Part C) : Prop
  | field {k : Keyword} {field : Field (k.Value C)} (here : s.get k = some field)
      (holds : k.shape.Holds part field.value)
  | extension {e : Entry Json} (mem : e ∈ s.extensions) (value : part = .value e.value)

def Schema.Proper (P : C → Prop) (s : Schema C) : Prop :=
  ∀ part, s.Holds part → part.Proper P

theorem Part.Proper.mono {part : Part C} (h : part.Proper P) (hPQ : ∀ c, P c → Q c) :
    part.Proper Q := by
  cases part with
  | nested c => exact hPQ c h
  | number x => exact h
  | value v => exact h

end Source

open Source in
def Shape.mapValue {C D : Type} (f : C → D) : (shape : Shape) → shape.Value C → shape.Value D
  | .schemas | .schemaOrSchemas => fun xs => xs.map (Element.map f)
  | .properties => fun xs => xs.map (Entry.map f)
  | .text => fun s => s
  | .number => fun x => x
  | .natural => fun n => n
  | .flag => fun b => b
  | .names => fun xs => xs
  | .values => fun xs => xs
  | .any => fun v => v
  | .discriminator => fun d => d
  | .xml => fun x => x
  | .externalDocs => fun d => d

namespace Source

/-- The parts that the items of a list are or hold, when other items take their place. -/
theorem exists_part_map {C D α β : Type} {f : C → D} (r : α → β) (old : α → Part C)
    (new : β → Part D) (hnew : ∀ e, new (r e) = (old e).map f) {xs : List α} {ys : List β}
    (hys : ys = xs.map r) {part : Part D} :
    (∃ e ∈ ys, part = new e) ↔ ∃ part', (∃ e ∈ xs, part' = old e) ∧ part'.map f = part := by
  subst hys
  constructor
  · rintro ⟨e', he', rfl⟩
    obtain ⟨e, he, rfl⟩ := List.mem_map.mp he'
    exact ⟨old e, ⟨e, he, rfl⟩, (hnew e).symm⟩
  · rintro ⟨part', ⟨e, he, rfl⟩, rfl⟩
    exact ⟨r e, List.mem_map_of_mem he, (hnew e).symm⟩

end Source

open Source in
/-- The parts of a value with other nested schemas in place of its own. -/
theorem Shape.holds_mapValue {C D : Type} {f : C → D} {shape : Shape} {x : shape.Value C}
    {part : Source.Part D} : shape.Holds part (shape.mapValue f x) ↔
      ∃ part', shape.Holds part' x ∧ part'.map f = part := by
  cases shape with
  | number =>
      constructor
      · rintro rfl
        exact ⟨.number x, rfl, rfl⟩
      · rintro ⟨part', rfl, rfl⟩
        rfl
  | any =>
      constructor
      · rintro rfl
        exact ⟨.value x, rfl, rfl⟩
      · rintro ⟨part', rfl, rfl⟩
        rfl
  | values =>
      exact exists_part_map id (.value ∘ Element.value) (.value ∘ Element.value) (fun _ => rfl)
        (List.map_id _).symm
  | schemas =>
      exact exists_part_map (Element.map f) (.nested ∘ Element.value) (.nested ∘ Element.value)
        (fun _ => rfl) rfl
  | schemaOrSchemas =>
      exact exists_part_map (Element.map f) (.nested ∘ Element.value) (.nested ∘ Element.value)
        (fun _ => rfl) rfl
  | properties =>
      exact exists_part_map (Entry.map f) (.nested ∘ Entry.value) (.nested ∘ Entry.value)
        (fun _ => rfl) rfl
  | xml =>
      exact exists_part_map id (.value ∘ Entry.value) (.value ∘ Entry.value) (fun _ => rfl)
        (List.map_id _).symm
  | externalDocs =>
      exact exists_part_map id (.value ∘ Entry.value) (.value ∘ Entry.value) (fun _ => rfl)
        (List.map_id _).symm
  | _ => exact ⟨False.elim, fun ⟨_, h, _⟩ => h.elim⟩

namespace Source

variable {C D : Type} {P Q : C → Prop}

theorem Schema.get_map (f : C → D) (s : Schema C) (k : Keyword) :
    (s.map f).get k = (s.get k).map (Field.map (k.shape.mapValue f)) := by
  cases k with
  | allOf => rfl
  | oneOf => rfl
  | anyOf => rfl
  | not => rfl
  | items => rfl
  | properties => rfl
  | _ => exact Option.map_id'.symm

/-- The parts of a schema with other nested schemas in place of its own. -/
theorem Schema.holds_map {f : C → D} {s : Schema C} {part : Part D} :
    (s.map f).Holds part ↔ ∃ part', s.Holds part' ∧ part'.map f = part := by
  constructor
  · intro h
    cases h with
    | @field k field here holds =>
        rw [get_map] at here
        obtain ⟨field, hfield, rfl⟩ := Option.map_eq_some_iff.mp here
        obtain ⟨part', hpart', heq⟩ := Shape.holds_mapValue.mp holds
        exact ⟨part', .field hfield hpart', heq⟩
    | @extension e mem value => exact ⟨.value e.value, .extension mem rfl, value.symm⟩
  · rintro ⟨part', h, rfl⟩
    cases h with
    | @field k field here holds =>
        have hmapped : (s.map f).get k = some (field.map (k.shape.mapValue f)) := by
          rw [get_map, here, Option.map_some]
        exact .field hmapped (Shape.holds_mapValue.mpr ⟨part', holds, rfl⟩)
    | @extension e mem value => exact .extension mem (value ▸ rfl)

/-- Schemas that become the same when their nested schemas are replaced hold the same parts but for
these. -/
theorem Schema.holds_of_map_eq {E : Type} {f : C → E} {g : D → E} {s : Schema C} {t : Schema D}
    (h : s.map f = t.map g) {part : Part C} (hpart : s.Holds part) :
    ∃ part', t.Holds part' ∧ part'.map g = part.map f := by
  have hmapped : (s.map f).Holds (part.map f) := holds_map.mpr ⟨part, hpart, rfl⟩
  rw [h] at hmapped
  exact holds_map.mp hmapped

theorem Schema.holds_applied {s : Schema C} {a : Applicator} {x : Field (List (Element C))}
    (hx : s.applied a = some x) {e : Element C} (he : e ∈ x.value) : s.Holds (.nested e.value) := by
  cases a with
  | allOf => exact .field (k := .allOf) hx ⟨e, he, rfl⟩
  | oneOf => exact .field (k := .oneOf) hx ⟨e, he, rfl⟩
  | anyOf => exact .field (k := .anyOf) hx ⟨e, he, rfl⟩
  | not => exact .field (k := .not) hx ⟨e, he, rfl⟩
  | items => exact .field (k := .items) hx ⟨e, he, rfl⟩

theorem Schema.holds_property {s : Schema C} {x : Field (List (Entry C))}
    (hx : s.properties = some x) {e : Entry C} (he : e ∈ x.value) : s.Holds (.nested e.value) :=
  .field (k := .properties) hx ⟨e, he, rfl⟩

section Loaded

variable {p : Pointer} {w : Json}

theorem items_genuine {α : Type} (back : α → Json) {xs : List (Element α)}
    (hw : w.Genuine) (h : w = .arr (xs.map fun e => back e.value)) :
    ∀ e ∈ xs, (back e.value).Genuine := by
  subst h
  exact fun e he => hw.items _ (List.mem_map_of_mem he)

theorem IsFragments.genuine {xs : List (Element Fragment)} (h : IsFragments p w xs)
    (hw : w.Genuine) : ∀ e ∈ xs, e.value.value.Genuine :=
  items_genuine Fragment.value hw h.1

theorem Extends.genuine {members : OrderedMap Json} {xs : List (Entry Json)}
    (h : Extends p members xs) (hmembers : (Json.obj members).Genuine) :
    ∀ e ∈ xs, e.value.Genuine := by
  intro e he
  have hmem : (e.key, e.value) ∈ xs.map fun e => (e.key, e.value) := List.mem_map_of_mem he
  rw [h.1] at hmem
  exact hmembers.of_mem _ (List.mem_of_mem_filter hmem)

end Loaded

end Source

open Source in
/-- The parts of what is read from a value are parts of the value. -/
theorem Shape.Reads.proper {p : Pointer} {w : Json} {shape : Shape} {x : shape.Value Fragment}
    (h : shape.Reads p w x) (hw : w.Genuine) (part : Source.Part Fragment)
    (hpart : shape.Holds part x) :
    part.Proper fun f => f.value.Genuine := by
  cases shape with
  | number =>
      cases hpart
      exact Json.isNan_number? hw.numeric h
  | values =>
      obtain ⟨e, he, rfl⟩ := hpart
      exact items_genuine id hw h.1 e he
  | schemas =>
      obtain ⟨e, he, rfl⟩ := hpart
      exact IsFragments.genuine h hw e he
  | schemaOrSchemas =>
      obtain ⟨e, he, rfl⟩ := hpart
      rcases h with hitems | ⟨_, hlone⟩
      · exact hitems.genuine hw e he
      · cases List.mem_singleton.mp (hlone ▸ he)
        exact hw
  | properties =>
      obtain ⟨e, he, rfl⟩ := hpart
      obtain ⟨rfl, _⟩ := h
      exact hw.of_mem (e.key, e.value.value) (List.mem_map_of_mem he)
  | any =>
      cases hpart
      exact h ▸ hw
  | xml =>
      obtain ⟨e, he, rfl⟩ := hpart
      obtain ⟨members, rfl, hreads⟩ := h
      exact hreads.extensions.genuine hw e he
  | externalDocs =>
      obtain ⟨e, he, rfl⟩ := hpart
      obtain ⟨members, rfl, hreads⟩ := h
      exact hreads.extensions.genuine hw e he
  | _ => exact hpart.elim

namespace Source

/-- A schema that is loaded from a value that can be there has nothing else in it. -/
theorem proper_of_load {p : Pointer} {v : Json} {s : Schema Fragment} (h : load p v = .ok s)
    (hv : v.Genuine) : s.Proper fun f => f.value.Genuine := by
  obtain ⟨members, rfl, hreads⟩ := load_reads h
  intro part hpart
  cases hpart with
  | @field k field here holds =>
      rcases (hreads.fields k).cases with ⟨_, hnone⟩ | ⟨w, f, hw, hf, _, _, hread⟩
      · cases hnone.symm.trans here
      · cases hf.symm.trans here
        exact hread.proper (hv.get? hw) part holds
  | @extension e mem value =>
      subst value
      exact hreads.extensions.genuine hv e mem

end Source
end ApiSchema
