import Mathlib.Data.List.Perm.Basic
import ApiSchema.Proofs.Source.Equality

/-!
Equality of schemas up to the order of maps.

Two schemas match if they are equal field by field, except that the entries under `properties`,
those of a mapping and extensions may stand in another order. Lists are still compared in order. As
with equality, how nested schemas are compared is left open.
-/

namespace ApiSchema
namespace Source

variable {α β : Type}

/-- One of two lists becomes equal to the other, element by element, when it is put in order. -/
def Reordered (same : α → α → Bool) (xs ys : List α) : Prop :=
  ∃ zs, zs.Perm ys ∧ sameList same xs zs = true

/-- Two optional fields are both absent, or their values match and their places are the same. -/
def FieldsMatch (R : α → α → Prop) : Option (Field α) → Option (Field α) → Prop
  | none, none => True
  | some x, some y => R x.value y.value ∧ x.keyAt = y.keyAt ∧ x.valueAt = y.valueAt
  | _, _ => False

/-- Discriminators are equal but for the order of their mappings. -/
def Discriminator.Matches (a b : Discriminator) : Prop :=
  sameField (· == ·) a.propertyName b.propertyName = true ∧
    Reordered (Entry.same (· == ·)) a.mapping b.mapping

def Xml.Matches (a b : Xml) : Prop :=
  Xml.same { a with extensions := [] } { b with extensions := [] } = true ∧
    Reordered (Entry.same Json.same) a.extensions b.extensions

def ExternalDocs.Matches (a b : ExternalDocs) : Prop :=
  ExternalDocs.same { a with extensions := [] } { b with extensions := [] } = true ∧
    Reordered (Entry.same Json.same) a.extensions b.extensions

end Source

open Source in
/-- Values of a shape are equal but for the order of maps, given equality of nested schemas. -/
def Shape.Matches {C : Type} (sameChild : C → C → Bool) :
    (shape : Shape) → shape.Value C → shape.Value C → Prop
  | .properties => Reordered (Entry.same sameChild)
  | .discriminator => Discriminator.Matches
  | .xml => Xml.Matches
  | .externalDocs => ExternalDocs.Matches
  | shape => fun x y => shape.same sameChild x y = true

namespace Source

/-- Schemas are equal but for the order of maps, given equality of nested schemas. -/
structure Schema.Matches {C : Type} (sameChild : C → C → Bool) (s t : Schema C) : Prop where
  fields : ∀ k, FieldsMatch (k.shape.Matches sameChild) (s.get k) (t.get k)
  extensions : Reordered (Entry.same Json.same) s.extensions t.extensions

variable {same same' : α → α → Bool} {xs ys : List α}

theorem sameList_mono (h : ∀ x y, same x y = true → same' x y = true)
    (hxy : sameList same xs ys = true) : sameList same' xs ys = true := by
  induction xs generalizing ys with
  | nil =>
      cases ys with
      | nil => rfl
      | cons y ys => cases hxy
  | cons x xs ih =>
      cases ys with
      | nil => cases hxy
      | cons y ys =>
          obtain ⟨hhead, htail⟩ := Bool.and_eq_true_iff.mp hxy
          rw [sameList, h x y hhead, ih htail, Bool.and_self]

theorem sameList_map (f : β → α) (xs ys : List β) :
    sameList same (xs.map f) (ys.map f) = sameList (fun x y => same (f x) (f y)) xs ys := by
  induction xs generalizing ys with
  | nil => cases ys <;> rfl
  | cons x xs ih =>
      cases ys with
      | nil => rfl
      | cons y ys => rw [List.map_cons, List.map_cons, sameList, sameList, ih]

theorem sameList_iff :
    sameList same xs ys = true ↔ ∀ i : Nat, sameOption same xs[i]? ys[i]? = true := by
  induction xs generalizing ys with
  | nil =>
      cases ys with
      | nil => simp [sameList, sameOption]
      | cons y ys => exact iff_of_false Bool.false_ne_true fun h => Bool.false_ne_true (h 0)
  | cons x xs ih =>
      cases ys with
      | nil => exact iff_of_false Bool.false_ne_true fun h => Bool.false_ne_true (h 0)
      | cons y ys =>
          rw [sameList, Bool.and_eq_true, ih]
          constructor
          · rintro ⟨hhead, htail⟩ i
            cases i with
            | zero => exact hhead
            | succ i => exact htail i
          · exact fun h => ⟨h 0, fun i => h (i + 1)⟩

theorem Reordered.mono (h : ∀ x y, same x y = true → same' x y = true)
    (hxy : Reordered same xs ys) : Reordered same' xs ys := by
  obtain ⟨zs, hperm, hzs⟩ := hxy
  exact ⟨zs, hperm, sameList_mono h hzs⟩

theorem reordered_map (f : β → α) (xs ys : List β) :
    Reordered same (xs.map f) (ys.map f) ↔ Reordered (fun x y => same (f x) (f y)) xs ys := by
  constructor
  · rintro ⟨zs, hperm, hzs⟩
    obtain ⟨zs, rfl, hback⟩ := (congrFun₂ (List.eq_map_comp_perm f) zs ys).mpr hperm
    exact ⟨zs, hback, (sameList_map f xs zs).symm.trans hzs⟩
  · rintro ⟨zs, hperm, hzs⟩
    exact ⟨zs.map f, hperm.map f, (sameList_map f xs zs).trans hzs⟩

/-- With distinct keys, as many entries, and an equal partner under the key of every entry, the
entries are equal up to order. -/
theorem reordered_of_keys {κ : Type} (key : α → κ) (hkeys : (xs.map key).Nodup)
    (hlength : xs.length = ys.length)
    (h : ∀ x ∈ xs, ∃ y ∈ ys, key y = key x ∧ same x y = true) : Reordered same xs ys := by
  induction xs generalizing ys with
  | nil =>
      obtain rfl := List.eq_nil_of_length_eq_zero hlength.symm
      exact ⟨[], .refl _, rfl⟩
  | cons x xs ih =>
      obtain ⟨hfirst, hkeys⟩ := List.nodup_cons.mp hkeys
      obtain ⟨⟨y, hy, hkey, hsame⟩, hrest⟩ := List.forall_mem_cons.mp h
      obtain ⟨before, after, rfl⟩ := List.append_of_mem hy
      have hlength : xs.length = (before ++ after).length := by
        simp only [List.length_cons, List.length_append] at hlength ⊢
        omega
      obtain ⟨zs, hperm, hzs⟩ := ih hkeys hlength fun x' hx' => by
        obtain ⟨y', hy', hkey', hsame'⟩ := hrest x' hx'
        refine ⟨y', ?_, hkey', hsame'⟩
        have hne : y' ≠ y := by
          rintro rfl
          exact hfirst (List.mem_map.mpr ⟨x', hx', hkey'.symm.trans hkey⟩)
        simpa [hne] using hy'
      refine ⟨y :: zs, (hperm.cons y).trans List.perm_middle.symm, ?_⟩
      rw [sameList, hsame, hzs, Bool.and_self]

theorem FieldsMatch.mono {R R' : α → α → Prop} {x y : Option (Field α)} (h : FieldsMatch R x y)
    (hR : ∀ a b, R a b → R' a b) : FieldsMatch R' x y := by
  cases x with
  | none =>
      cases y with
      | none => trivial
      | some y => exact h.elim
  | some x =>
      cases y with
      | none => exact h.elim
      | some y => exact ⟨hR _ _ h.1, h.2⟩

theorem fieldsMatch_map {R : α → α → Prop} (f : β → α) (x y : Option (Field β)) :
    FieldsMatch R (x.map (Field.map f)) (y.map (Field.map f)) ↔
      FieldsMatch (fun a b => R (f a) (f b)) x y := by
  cases x <;> cases y <;> exact Iff.rfl

/-- Fields that match by an equality are equal. -/
theorem sameField_of_matches {x y : Option (Field α)}
    (h : FieldsMatch (fun a b => same a b = true) x y) : sameField same x y = true := by
  cases x with
  | none =>
      cases y with
      | none => rfl
      | some y => exact h.elim
  | some x =>
      cases y with
      | none => exact h.elim
      | some y =>
          obtain ⟨hvalue, hkeyAt, hvalueAt⟩ := h
          simp [sameField, sameOption, Field.same, hvalue, hkeyAt, hvalueAt]

end Source

open Source

variable {C D : Type} {sameC sameC' : C → C → Bool} {sameD : D → D → Bool}

theorem Shape.Matches.mono {shape : Shape} {x y : shape.Value C} (h : shape.Matches sameC x y)
    (hsame : ∀ c d, sameC c d = true → sameC' c d = true) : shape.Matches sameC' x y := by
  have helement : ∀ x y : Element C, Element.same sameC x y = true →
      Element.same sameC' x y = true := by
    intro x y hxy
    obtain ⟨hvalue, horigin⟩ := Bool.and_eq_true_iff.mp hxy
    rw [Element.same, hsame _ _ hvalue, horigin, Bool.and_self]
  have hentry : ∀ x y : Entry C, Entry.same sameC x y = true → Entry.same sameC' x y = true := by
    intro x y hxy
    simp only [Entry.same, Bool.and_eq_true] at hxy ⊢
    exact ⟨⟨hxy.1.1, hsame _ _ hxy.1.2⟩, hxy.2⟩
  cases shape with
  | schemas => exact sameList_mono helement h
  | schemaOrSchemas => exact sameList_mono helement h
  | properties => exact Reordered.mono hentry h
  | _ => exact h

theorem Shape.matches_mapValue (f : C → D) {shape : Shape} {x y : shape.Value C} :
    shape.Matches sameD (shape.mapValue f x) (shape.mapValue f y) ↔
      shape.Matches (fun c d => sameD (f c) (f d)) x y := by
  cases shape with
  | schemas => exact Eq.to_iff (congrArg (· = true) (sameList_map (Element.map f) x y))
  | schemaOrSchemas => exact Eq.to_iff (congrArg (· = true) (sameList_map (Element.map f) x y))
  | properties => exact reordered_map (Entry.map f) x y
  | _ => exact Iff.rfl

namespace Source.Schema

theorem Matches.mono {s t : Schema C} (h : s.Matches sameC t)
    (hsame : ∀ c d, sameC c d = true → sameC' c d = true) : s.Matches sameC' t :=
  ⟨fun k => (h.fields k).mono fun _ _ hvalue => hvalue.mono hsame, h.extensions⟩

/-- Replacing nested schemas comes to the same as comparing what would take their places. -/
theorem matches_map (f : C → D) {s t : Schema C} :
    (s.map f).Matches sameD (t.map f) ↔ s.Matches (fun c d => sameD (f c) (f d)) t := by
  have hfield : ∀ k : Keyword,
      FieldsMatch (k.shape.Matches sameD) ((s.map f).get k) ((t.map f).get k) ↔
        FieldsMatch (k.shape.Matches fun c d => sameD (f c) (f d)) (s.get k) (t.get k) := by
    intro k
    rw [get_map, get_map, fieldsMatch_map]
    have hvalue : (fun x y => k.shape.Matches sameD (k.shape.mapValue f x) (k.shape.mapValue f y)) =
        k.shape.Matches fun c d => sameD (f c) (f d) :=
      funext fun x => funext fun y => propext (k.shape.matches_mapValue f)
    rw [hvalue]
  exact ⟨fun h => ⟨fun k => (hfield k).mp (h.fields k), h.extensions⟩,
    fun h => ⟨fun k => (hfield k).mpr (h.fields k), h.extensions⟩⟩

end Source.Schema
end ApiSchema
