import ApiSchema.Source.Schema

/-!
Schemas as containers of their nested schemas.
-/

namespace ApiSchema
namespace Source

variable {α β C D : Type}

def Element.map (f : α → β) (e : Element α) : Element β :=
  ⟨f e.value, e.origin⟩

def Entry.map (f : α → β) (e : Entry α) : Entry β :=
  ⟨e.key, e.keyAt, f e.value, e.valueAt⟩

namespace Schema

/-- Replaces the nested schemas of a list. -/
def mapElements (f : C → D) (field : Option (Field (List (Element C)))) :
    Option (Field (List (Element D))) :=
  field.map fun field => field.map (List.map (Element.map f))

def mapEntries (f : C → D) (field : Option (Field (List (Entry C)))) :
    Option (Field (List (Entry D))) :=
  field.map fun field => field.map (List.map (Entry.map f))

/-- Replaces every nested schema. -/
def map (f : C → D) (s : Schema C) : Schema D :=
  { s with
    allOf := mapElements f s.allOf
    oneOf := mapElements f s.oneOf
    anyOf := mapElements f s.anyOf
    not := mapElements f s.not
    items := mapElements f s.items
    properties := mapEntries f s.properties }

theorem mapElements_map {E : Type} (f : C → D) (g : D → E)
    (field : Option (Field (List (Element C)))) :
    mapElements g (mapElements f field) = mapElements (g ∘ f) field := by
  cases field with
  | none => rfl
  | some x =>
      exact congrArg (fun xs => some (Field.mk xs x.keyAt x.valueAt)) (List.map_map ..)

theorem mapEntries_map {E : Type} (f : C → D) (g : D → E)
    (field : Option (Field (List (Entry C)))) :
    mapEntries g (mapEntries f field) = mapEntries (g ∘ f) field := by
  cases field with
  | none => rfl
  | some x =>
      exact congrArg (fun xs => some (Field.mk xs x.keyAt x.valueAt)) (List.map_map ..)

theorem map_map {E : Type} (f : C → D) (g : D → E) (s : Schema C) :
    (s.map f).map g = s.map (g ∘ f) := by
  simp only [map, mapElements_map, mapEntries_map]

theorem mapElements_id (field : Option (Field (List (Element C)))) :
    mapElements id field = field := by
  cases field with
  | none => rfl
  | some x => exact congrArg (fun xs => some (Field.mk xs x.keyAt x.valueAt)) (List.map_id _)

theorem mapEntries_id (field : Option (Field (List (Entry C)))) : mapEntries id field = field := by
  cases field with
  | none => rfl
  | some x => exact congrArg (fun xs => some (Field.mk xs x.keyAt x.valueAt)) (List.map_id _)

theorem map_id (s : Schema C) : s.map id = s := by
  simp only [map, mapElements_id, mapEntries_id]

theorem elements_map (f : C → D) (s : Schema C) (a : Applicator) :
    (s.map f).elements a = (s.elements a).map (Element.map f) := by
  have happlied : (s.map f).applied a = mapElements f (s.applied a) := by
    cases a <;> rfl
  unfold elements
  rw [happlied]
  cases s.applied a <;> rfl

theorem entries_map (f : C → D) (s : Schema C) :
    (s.map f).entries = s.entries.map (Entry.map f) := by
  unfold entries
  rw [show (s.map f).properties = mapEntries f s.properties from rfl]
  cases s.properties <;> rfl

/-- Lists that agree one way agree another, if their items do. -/
theorem list_map_eq {E F G : Type} {f g : E → G} {k : F → G}
    (hfg : ∀ x y, f x = k y → g x = k y) {xs : List E} {ys : List F}
    (h : xs.map f = ys.map k) : xs.map g = ys.map k := by
  induction xs generalizing ys with
  | nil =>
      obtain rfl := List.map_eq_nil_iff.mp h.symm
      rfl
  | cons x xs ih =>
      obtain ⟨y, ys, rfl, hhead, htail⟩ := List.map_eq_cons_iff.mp h.symm
      rw [List.map_cons, List.map_cons, hfg x y hhead.symm, ih htail.symm]

/-- Fields of lists that agree one way agree another, if the items do. -/
theorem field_map_eq {E F G : Type} {f g : E → G} {k : F → G}
    (hfg : ∀ x y, f x = k y → g x = k y) {x : Option (Field (List E))}
    {y : Option (Field (List F))}
    (h : x.map (Field.map (List.map f)) = y.map (Field.map (List.map k))) :
    x.map (Field.map (List.map g)) = y.map (Field.map (List.map k)) := by
  cases x with
  | none => exact h
  | some x =>
      cases y with
      | none => cases h
      | some y =>
          obtain ⟨hvalue, hkeyAt, hvalueAt⟩ := Field.mk.inj (Option.some.inj h)
          simp only [Option.map_some, Field.map, list_map_eq hfg hvalue, hkeyAt, hvalueAt]

section Finds

variable {f g : C → Option D} (hfg : ∀ c d, f c = some d → g c = some d)
include hfg

theorem element_eq_of_finds {a : Element C} {b : Element D} (h : a.map f = b.map some) :
    a.map g = b.map some := by
  obtain ⟨hvalue, horigin⟩ := Element.mk.inj h
  rw [Element.map, Element.map, hfg _ _ hvalue, horigin]

theorem entry_eq_of_finds {a : Entry C} {b : Entry D} (h : a.map f = b.map some) :
    a.map g = b.map some := by
  obtain ⟨hkey, hkeyAt, hvalue, hvalueAt⟩ := Entry.mk.inj h
  rw [Entry.map, Entry.map, hkey, hkeyAt, hfg _ _ hvalue, hvalueAt]

theorem elements_eq_of_finds {x : Option (Field (List (Element C)))}
    {y : Option (Field (List (Element D)))} (h : mapElements f x = mapElements some y) :
    mapElements g x = mapElements some y :=
  field_map_eq (fun _ _ => element_eq_of_finds hfg) h

theorem entries_eq_of_finds {x : Option (Field (List (Entry C)))}
    {y : Option (Field (List (Entry D)))} (h : mapEntries f x = mapEntries some y) :
    mapEntries g x = mapEntries some y :=
  field_map_eq (fun _ _ => entry_eq_of_finds hfg) h

/-- A schema whose nested schemas are found one way is found by any way that finds more. -/
theorem map_eq_of_finds {t : Schema C} {s : Schema D} (h : t.map f = s.map some) :
    t.map g = s.map some := by
  have hallOf := elements_eq_of_finds hfg (congrArg allOf h)
  have honeOf := elements_eq_of_finds hfg (congrArg oneOf h)
  have hanyOf := elements_eq_of_finds hfg (congrArg anyOf h)
  have hnot := elements_eq_of_finds hfg (congrArg not h)
  have hitems := elements_eq_of_finds hfg (congrArg items h)
  have hproperties := entries_eq_of_finds hfg (congrArg properties h)
  calc t.map g
      = { t.map f with
          allOf := mapElements g t.allOf
          oneOf := mapElements g t.oneOf
          anyOf := mapElements g t.anyOf
          not := mapElements g t.not
          items := mapElements g t.items
          properties := mapEntries g t.properties } := rfl
    _ = s.map some := by
        rw [hallOf, honeOf, hanyOf, hnot, hitems, hproperties, h]
        rfl

end Finds

end Schema
end Source
end ApiSchema
