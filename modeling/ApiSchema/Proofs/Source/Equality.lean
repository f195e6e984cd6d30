import ApiSchema.Proofs.Source.Parts

/-!
Equality of schemas, given equality of nested schemas.

Field by field, equality of schemas is put together from equalities of texts, flags, numbers,
places, JSON values and nested schemas. It is an equivalence wherever these are, and it depends on
the comparison of nested schemas only as far as it compares some.
-/

namespace ApiSchema
namespace Source

variable {α : Type} {P : α → Prop} {same same' : α → α → Bool}

theorem Field.equivalenceAt {x : Field α} (h : EquivalenceAt P same x.value) :
    EquivalenceAt (fun y => P y.value) (Field.same same) x :=
  ((h.comap Field.value fun _ => id).and (.beq Field.keyAt x)).and (.beq Field.valueAt x)

theorem Element.equivalenceAt {x : Element α} (h : EquivalenceAt P same x.value) :
    EquivalenceAt (fun y => P y.value) (Element.same same) x :=
  (h.comap Element.value fun _ => id).and (.beq Element.origin x)

theorem Entry.equivalenceAt {x : Entry α} (h : EquivalenceAt P same x.value) :
    EquivalenceAt (fun y => P y.value) (Entry.same same) x :=
  (((EquivalenceAt.beq Entry.key x).and (.beq Entry.keyAt x)).and
    (h.comap Entry.value fun _ => id)).and (.beq Entry.valueAt x)

theorem equivalenceAt_field {x : Option (Field α)}
    (h : ∀ field ∈ x, EquivalenceAt P same field.value) :
    EquivalenceAt (fun y => ∀ field ∈ y, P field.value) (sameField same) x :=
  .option fun field hfield => Field.equivalenceAt (h field hfield)

theorem equivalenceAt_elements {xs : List (Element α)}
    (h : ∀ e ∈ xs, EquivalenceAt P same e.value) :
    EquivalenceAt (fun ys => ∀ e ∈ ys, P e.value) (sameList (Element.same same)) xs :=
  .list fun e he => Element.equivalenceAt (h e he)

theorem equivalenceAt_entries {xs : List (Entry α)}
    (h : ∀ e ∈ xs, EquivalenceAt P same e.value) :
    EquivalenceAt (fun ys => ∀ e ∈ ys, P e.value) (sameList (Entry.same same)) xs :=
  .list fun e he => Entry.equivalenceAt (h e he)

theorem equivalenceAt_extensions {xs : List (Entry Json)} (h : ∀ e ∈ xs, e.value.Genuine) :
    EquivalenceAt (fun ys => ∀ e ∈ ys, e.value.Genuine) sameExtensions xs :=
  equivalenceAt_entries fun e he => (h e he).equivalenceAt

theorem equivalenceAt_beq {β : Type} [BEq β] [LawfulBEq β] (x : β) :
    EquivalenceAt (fun _ => True) (· == ·) x :=
  .beq id x

/-- Fields of plain data are compared by equality. -/
theorem equivalenceAt_plain {β : Type} [BEq β] [LawfulBEq β] (part : α → Option (Field β)) (a : α) :
    EquivalenceAt P (fun x y => sameField (· == ·) (part x) (part y)) a :=
  .comap part (equivalenceAt_field fun field _ => equivalenceAt_beq field.value)
    fun _ _ _ _ => trivial

theorem Discriminator.equivalenceAt (d : Discriminator) :
    EquivalenceAt (fun _ => True) Discriminator.same d :=
  (equivalenceAt_plain Discriminator.propertyName d).and
    (.comap Discriminator.mapping (equivalenceAt_entries fun e _ => equivalenceAt_beq e.value)
      fun _ _ _ _ => trivial)

theorem Xml.equivalenceAt {x : Xml} (h : ∀ e ∈ x.extensions, e.value.Genuine) :
    EquivalenceAt (fun y => ∀ e ∈ y.extensions, e.value.Genuine) Xml.same x :=
  (((((equivalenceAt_plain Xml.name x).and (equivalenceAt_plain Xml.uri x)).and
    (equivalenceAt_plain Xml.qualifier x)).and (equivalenceAt_plain Xml.asAttribute x)).and
    (equivalenceAt_plain Xml.wrapped x)).and
    (.comap Xml.extensions (equivalenceAt_extensions h) fun _ => id)

theorem ExternalDocs.equivalenceAt {d : ExternalDocs} (h : ∀ e ∈ d.extensions, e.value.Genuine) :
    EquivalenceAt (fun y => ∀ e ∈ y.extensions, e.value.Genuine) ExternalDocs.same d :=
  ((equivalenceAt_plain ExternalDocs.description d).and
    (equivalenceAt_plain ExternalDocs.url d)).and
    (.comap ExternalDocs.extensions (equivalenceAt_extensions h) fun _ => id)

end Source

open Source in
/-- Values of a shape are compared by an equivalence, shape by shape. -/
theorem Shape.equivalenceAt {C : Type} {P : C → Prop} {sameChild : C → C → Bool} {shape : Shape}
    {x : shape.Value C} (h : ∀ part, shape.Holds part x → part.Proper (EquivalenceAt P sameChild)) :
    EquivalenceAt (fun y => ∀ part, shape.Holds part y → part.Proper P) (shape.same sameChild) x := by
  cases shape with
  | text => exact .beq id x
  | natural => exact .beq id x
  | flag => exact .beq id x
  | number => exact (Binary64.equivalenceAt (h _ rfl)).mono fun y hy => hy _ rfl
  | any => exact (h (.value x) rfl : x.Genuine).equivalenceAt.mono fun y hy => hy _ rfl
  | names =>
      exact (equivalenceAt_elements fun e _ => equivalenceAt_beq e.value).mono fun _ _ _ _ => trivial
  | values =>
      refine (equivalenceAt_elements fun e he => ?_).mono fun y hy e he => hy _ ⟨e, he, rfl⟩
      exact (h _ ⟨e, he, rfl⟩ : e.value.Genuine).equivalenceAt
  | schemas =>
      exact (equivalenceAt_elements fun e he => h _ ⟨e, he, rfl⟩).mono
        fun y hy e he => hy _ ⟨e, he, rfl⟩
  | schemaOrSchemas =>
      exact (equivalenceAt_elements fun e he => h _ ⟨e, he, rfl⟩).mono
        fun y hy e he => hy _ ⟨e, he, rfl⟩
  | properties =>
      exact (equivalenceAt_entries fun e he => h _ ⟨e, he, rfl⟩).mono
        fun y hy e he => hy _ ⟨e, he, rfl⟩
  | discriminator => exact (Discriminator.equivalenceAt x).mono fun _ _ => trivial
  | xml =>
      exact (Xml.equivalenceAt fun e he => h _ ⟨e, he, rfl⟩).mono
        fun y hy e he => hy _ ⟨e, he, rfl⟩
  | externalDocs =>
      exact (ExternalDocs.equivalenceAt fun e he => h _ ⟨e, he, rfl⟩).mono
        fun y hy e he => hy _ ⟨e, he, rfl⟩

namespace Source

variable {C : Type} {P : C → Prop} {sameChild : C → C → Bool}

/-- Schemas are compared by an equivalence if their nested schemas are. -/
theorem Schema.equivalenceAt {s : Schema C} (h : s.Proper (EquivalenceAt P sameChild)) :
    EquivalenceAt (Schema.Proper P) (Schema.same sameChild) s := by
  have hfields : ∀ k : Keyword, EquivalenceAt (Schema.Proper P)
      (fun a b => sameField (k.shape.same sameChild) (a.get k) (b.get k)) s := by
    intro k
    have hfield : ∀ field ∈ s.get k, EquivalenceAt
        (fun y => ∀ part, k.shape.Holds part y → part.Proper P) (k.shape.same sameChild)
        field.value :=
      fun field here => Shape.equivalenceAt fun part hpart => h part (.field here hpart)
    refine .comap (fun t : Schema C => t.get k) (equivalenceAt_field hfield) ?_
    exact fun t ht field here part hpart => ht part (.field here hpart)
  have hextensions : EquivalenceAt (Schema.Proper P)
      (fun a b => sameExtensions a.extensions b.extensions) s :=
    .comap Schema.extensions (equivalenceAt_extensions fun e he => h _ (.extension he rfl))
      fun t ht e he => ht _ (.extension he rfl)
  exact (EquivalenceAt.all Keyword.all hfields).and hextensions

/-- Lists are compared by what their elements are compared by. -/
theorem sameList_congr {α : Type} {f g : α → α → Bool} {xs ys : List α}
    (h : ∀ x ∈ xs, ∀ y ∈ ys, f x y = g x y) : sameList f xs ys = sameList g xs ys := by
  induction xs generalizing ys with
  | nil => cases ys <;> rfl
  | cons x xs ih =>
      cases ys with
      | nil => rfl
      | cons y ys =>
          have hhead := h x List.mem_cons_self y List.mem_cons_self
          have htail := ih fun x' hx' y' hy' =>
            h x' (List.mem_cons_of_mem x hx') y' (List.mem_cons_of_mem y hy')
          rw [sameList, sameList, hhead, htail]

theorem sameElements_congr {f g : C → C → Bool} {xs ys : List (Element C)}
    (h : ∀ x ∈ xs, ∀ y ∈ ys, f x.value y.value = g x.value y.value) :
    sameList (Element.same f) xs ys = sameList (Element.same g) xs ys :=
  sameList_congr fun x hx y hy => by rw [Element.same, Element.same, h x hx y hy]

theorem sameEntries_congr {f g : C → C → Bool} {xs ys : List (Entry C)}
    (h : ∀ x ∈ xs, ∀ y ∈ ys, f x.value y.value = g x.value y.value) :
    sameList (Entry.same f) xs ys = sameList (Entry.same g) xs ys :=
  sameList_congr fun x hx y hy => by rw [Entry.same, Entry.same, h x hx y hy]

end Source

open Source in
theorem Shape.same_congr {C : Type} {f g : C → C → Bool} {shape : Shape} {x y : shape.Value C}
    (h : ∀ c d, shape.Holds (.nested c) x → shape.Holds (.nested d) y → f c d = g c d) :
    shape.same f x y = shape.same g x y := by
  cases shape with
  | schemas => exact sameElements_congr fun a ha b hb => h _ _ ⟨a, ha, rfl⟩ ⟨b, hb, rfl⟩
  | schemaOrSchemas => exact sameElements_congr fun a ha b hb => h _ _ ⟨a, ha, rfl⟩ ⟨b, hb, rfl⟩
  | properties => exact sameEntries_congr fun a ha b hb => h _ _ ⟨a, ha, rfl⟩ ⟨b, hb, rfl⟩
  | _ => rfl

namespace Source

variable {C : Type}

/-- Only the nested schemas of two schemas are ever compared with one another. -/
theorem Schema.same_congr {f g : C → C → Bool} {s t : Schema C}
    (h : ∀ c d, s.Holds (.nested c) → t.Holds (.nested d) → f c d = g c d) :
    s.same f t = s.same g t := by
  have hfield : ∀ k : Keyword,
      sameField (k.shape.same f) (s.get k) (t.get k) =
        sameField (k.shape.same g) (s.get k) (t.get k) := by
    intro k
    cases hs : s.get k with
    | none => cases t.get k <;> rfl
    | some x =>
        cases ht : t.get k with
        | none => rfl
        | some y =>
            have hvalue : k.shape.same f x.value y.value = k.shape.same g x.value y.value :=
              Shape.same_congr fun c d hc hd => h c d (.field hs hc) (.field ht hd)
            rw [sameField, sameField, sameOption, sameOption, Field.same, Field.same, hvalue]
  rw [same, same, funext hfield]

end Source
end ApiSchema
