import ApiSchema.Proofs.Pointer
import ApiSchema.Proofs.Source.Acceptance
import ApiSchema.Proofs.Source.Reading

/-!
Every place that a loaded schema or an error names is the true one.

A schema is grounded in a document if each place in it, followed into the document, leads to the
value that the entry there was made from. A schema that is loaded from a part of a document is
grounded in the document, and the place in an error is that of the offending value.
-/

namespace ApiSchema
namespace Source

variable {α : Type} {v w : Json} {p : Pointer} {members : OrderedMap Json}

/-- An optional place is there and leads to a value. -/
def Marks (v : Json) (place : Option Pointer) (w : Json) : Prop :=
  ∃ p, place = some p ∧ p.resolve? v = some w

/-- Both places of a field lead to the value that the field was made from. -/
def Field.Grounded (v : Json) (made : Json → α → Prop) (f : Field α) : Prop :=
  ∃ w, Marks v f.keyAt w ∧ Marks v f.valueAt w ∧ made w f.value

/-- The place of each element leads to the value that `back` tells from the element. -/
def ElementsGrounded (v : Json) (back : α → Json) (xs : List (Element α)) : Prop :=
  ∀ e ∈ xs, e.origin.resolve? v = some (back e.value)

def EntriesGrounded (v : Json) (back : α → Json) (xs : List (Entry α)) : Prop :=
  ∀ e ∈ xs, e.keyAt.resolve? v = some (back e.value) ∧ e.valueAt.resolve? v = some (back e.value)

/-- The place of a fragment leads to its value. -/
def Fragment.Grounded (v : Json) (fragment : Fragment) : Prop :=
  fragment.origin.resolve? v = some fragment.value

structure Discriminator.Grounded (v : Json) (d : Discriminator) : Prop where
  propertyName : ∀ f, d.propertyName = some f → f.Grounded v IsText
  mapping : EntriesGrounded v .str d.mapping

structure Xml.Grounded (v : Json) (x : Xml) : Prop where
  name : ∀ f, x.name = some f → f.Grounded v IsText
  uri : ∀ f, x.uri = some f → f.Grounded v IsText
  qualifier : ∀ f, x.qualifier = some f → f.Grounded v IsText
  asAttribute : ∀ f, x.asAttribute = some f → f.Grounded v IsFlag
  wrapped : ∀ f, x.wrapped = some f → f.Grounded v IsFlag
  extensions : EntriesGrounded v id x.extensions

structure ExternalDocs.Grounded (v : Json) (d : ExternalDocs) : Prop where
  description : ∀ f, d.description = some f → f.Grounded v IsText
  url : ∀ f, d.url = some f → f.Grounded v IsText
  extensions : EntriesGrounded v id d.extensions

end Source

open Source in
/-- Every place inside a value of a shape leads to the value of the entry there. -/
def Shape.Grounded (v : Json) : (shape : Shape) → shape.Value Fragment → Prop
  | .text | .number | .natural | .flag | .any => fun _ => True
  | .names => ElementsGrounded v .str
  | .values => ElementsGrounded v id
  | .schemas | .schemaOrSchemas => fun xs =>
    ElementsGrounded v Fragment.value xs ∧ ∀ e ∈ xs, e.value.Grounded v
  | .properties => fun xs =>
    EntriesGrounded v Fragment.value xs ∧ ∀ e ∈ xs, e.value.Grounded v
  | .discriminator => Discriminator.Grounded v
  | .xml => Xml.Grounded v
  | .externalDocs => ExternalDocs.Grounded v

namespace Source

/-- Every place in a schema leads to the value that the entry there was made from. -/
structure Schema.Grounded (v : Json) (s : Schema Fragment) : Prop where
  fields : ∀ k f, s.get k = some f →
    f.Grounded v (fun w x => ∃ p, k.shape.Reads p w x) ∧ k.shape.Grounded v f.value
  extensions : EntriesGrounded v id s.extensions

/-- The place of a field that keeps a member leads to the member. -/
theorem Keeps.grounded {reads : Json → α → Prop} {key : String} {field : Option (Field α)}
    (hp : p.resolve? v = some (.obj members)) (h : Keeps reads p members key field) :
    ∀ f, field = some f → f.Grounded v reads ∧
      ∃ w, (p.child key).resolve? v = some w ∧ reads w f.value := by
  rintro f rfl
  rcases h.cases with ⟨_, hnone⟩ | ⟨w, g, hmember, hfield, hkeyAt, hvalueAt, hreads⟩
  · cases hnone
  · cases hfield
    have hw := Pointer.resolve?_member hp hmember
    exact ⟨⟨w, ⟨_, hkeyAt, hw⟩, ⟨_, hvalueAt, hw⟩, hreads⟩, w, hw, hreads⟩

theorem Numbered.grounded (back : α → Json) {xs : List (Element α)}
    (hp : p.resolve? v = some (.arr (xs.map fun e => back e.value))) (h : Numbered p xs) :
    ElementsGrounded v back xs := by
  intro e he
  obtain ⟨i, hi⟩ := List.mem_iff_getElem?.mp he
  rw [h i e hi]
  exact Pointer.resolve?_item hp (by rw [List.getElem?_map, hi]; rfl)

/-- Entries that bear their places in an object are grounded if they are members of it. -/
theorem Keyed.grounded {back : α → Json} {xs : List (Entry α)}
    (hp : p.resolve? v = some (.obj members)) (hkeys : (OrderedMap.keys members).Nodup)
    (hxs : ∀ e ∈ xs, (e.key, back e.value) ∈ members) (h : Keyed p xs) :
    EntriesGrounded v back xs := by
  intro e he
  have hmember := OrderedMap.get?_of_mem hkeys (hxs e he)
  rw [(h e he).1, (h e he).2]
  exact ⟨Pointer.resolve?_member hp hmember, Pointer.resolve?_member hp hmember⟩

theorem Extends.grounded {xs : List (Entry Json)} (hp : p.resolve? v = some (.obj members))
    (hkeys : (OrderedMap.keys members).Nodup) (h : Extends p members xs) :
    EntriesGrounded v id xs := by
  refine h.2.grounded hp hkeys fun e he => ?_
  have hmem : (e.key, e.value) ∈ members.filter fun m => isExtensionKey m.1 :=
    h.1 ▸ List.mem_map_of_mem he
  exact (List.mem_filter.mp hmem).1

theorem IsFragments.grounded {xs : List (Element Fragment)} (hp : p.resolve? v = some w)
    (h : IsFragments p w xs) :
    ElementsGrounded v Fragment.value xs ∧ ∀ e ∈ xs, e.value.Grounded v := by
  obtain ⟨hw, hnumbered, horigins⟩ := h
  have helements := hnumbered.grounded Fragment.value (hw ▸ hp)
  refine ⟨helements, fun e he => ?_⟩
  rw [Fragment.Grounded, horigins e he]
  exact helements e he

theorem IsMapping.grounded {xs : List (Entry String)} (hv : v.Distinct)
    (hp : p.resolve? v = some (.obj members)) (h : IsMapping p members xs) :
    EntriesGrounded v .str xs := by
  unfold IsMapping at h
  split at h
  next =>
    subst h
    exact nofun
  next w hmember =>
    obtain ⟨rfl, hkeyed⟩ := h
    have hw := Pointer.resolve?_member hp hmember
    cases Pointer.resolve?_distinct hv hw with
    | obj hkeys _ => exact hkeyed.grounded hw hkeys fun e he => List.mem_map_of_mem he

theorem Discriminator.Reads.grounded {d : Discriminator} (hv : v.Distinct)
    (hp : p.resolve? v = some (.obj members)) (h : d.Reads p members) : d.Grounded v :=
  ⟨fun f hf => (h.propertyName.grounded hp f hf).1, h.mapping.grounded hv hp⟩

theorem Xml.Reads.grounded {x : Xml} (hp : p.resolve? v = some (.obj members))
    (hkeys : (OrderedMap.keys members).Nodup) (h : x.Reads p members) : x.Grounded v where
  name f hf := (h.name.grounded hp f hf).1
  uri f hf := (h.uri.grounded hp f hf).1
  qualifier f hf := (h.qualifier.grounded hp f hf).1
  asAttribute f hf := (h.asAttribute.grounded hp f hf).1
  wrapped f hf := (h.wrapped.grounded hp f hf).1
  extensions := h.extensions.grounded hp hkeys

theorem ExternalDocs.Reads.grounded {d : ExternalDocs} (hp : p.resolve? v = some (.obj members))
    (hkeys : (OrderedMap.keys members).Nodup) (h : d.Reads p members) : d.Grounded v where
  description f hf := (h.description.grounded hp f hf).1
  url f hf := (h.url.grounded hp f hf).1
  extensions := h.extensions.grounded hp hkeys

/-- The places inside a value that is read from a part of a document, shape by shape. -/
theorem reads_grounded {shape : Shape} {x : shape.Value Fragment} (hv : v.Distinct)
    (hp : p.resolve? v = some w) (h : shape.Reads p w x) : shape.Grounded v x := by
  have hw := Pointer.resolve?_distinct hv hp
  cases shape with
  | text => trivial
  | number => trivial
  | natural => trivial
  | flag => trivial
  | names => exact h.2.grounded .str (h.1 ▸ hp)
  | values => exact h.2.grounded id (h.1 ▸ hp)
  | schemas => exact IsFragments.grounded hp h
  | schemaOrSchemas =>
      rcases h with h | ⟨_, h⟩
      · exact IsFragments.grounded hp h
      · subst h
        exact ⟨List.forall_mem_singleton.mpr hp, List.forall_mem_singleton.mpr hp⟩
  | properties =>
      obtain ⟨rfl, hkeyed, horigins⟩ := h
      cases hw with
      | obj hkeys _ =>
          have hentries : EntriesGrounded v Fragment.value x :=
            hkeyed.grounded hp hkeys fun e he => List.mem_map_of_mem he
          refine ⟨hentries, fun e he => ?_⟩
          rw [Fragment.Grounded, horigins e he]
          exact (hentries e he).2
  | any => trivial
  | discriminator =>
      obtain ⟨members, rfl, h⟩ := h
      exact h.grounded hv hp
  | xml =>
      obtain ⟨members, rfl, h⟩ := h
      cases hw with
      | obj hkeys _ => exact h.grounded hp hkeys
  | externalDocs =>
      obtain ⟨members, rfl, h⟩ := h
      cases hw with
      | obj hkeys _ => exact h.grounded hp hkeys

/-- A schema that is loaded from a part of a document is grounded in the document. -/
theorem load_grounded {s : Schema Fragment} (hv : v.Distinct) (hp : p.resolve? v = some w)
    (h : load p w = .ok s) : s.Grounded v := by
  obtain ⟨members, rfl, hreads⟩ := load_reads h
  cases Pointer.resolve?_distinct hv hp with
  | obj hkeys _ =>
      refine ⟨fun k f hf => ?_, hreads.extensions.grounded hp hkeys⟩
      obtain ⟨⟨w, hkeyAt, hvalueAt, hmade⟩, u, hu, hreads⟩ := (hreads.fields k).grounded hp f hf
      exact ⟨⟨w, hkeyAt, hvalueAt, _, hmade⟩, reads_grounded hv hu hreads⟩

end Source

/-- Whether a value is what is expected. -/
def Expectation.Met : Expectation → Json → Prop
  | .text => fun w => ∃ s, w = .str s
  | .number => fun w => (∃ i, w = .integer i) ∨ ∃ x, w = .real x
  | .natural => fun w => ∃ n : Nat, w = .integer n
  | .flag => fun w => ∃ b, w = .bool b
  | .array | .schemas => fun w => ∃ items, w = .arr items
  | .object => fun w => ∃ members, w = .obj members
  | .schemaOrSchemas => fun w => (∃ members, w = .obj members) ∨ ∃ items, w = .arr items
  | .other _ => fun _ => True

/-- The place in an error leads to the offending value: one that is no object, one that is not what
is expected, or a reference to the target that is named. -/
def LoadError.Grounded (v : Json) : LoadError → Prop
  | .notAnObject p => ∃ w, p.resolve? v = some w ∧ ¬ ∃ members, w = .obj members
  | .invalidField p expected => ∃ w, p.resolve? v = some w ∧ ¬ expected.Met w
  | .unresolvedReference p reference =>
    ∃ w, p.resolve? v = some w ∧ w.member? "$ref" = some (.str reference)
  | .malformedJson _ | .malformedYaml => False

namespace Source

/-- A rule whose faults are always found where they are said to be. -/
def Rule.Grounded (rule : Rule) : Prop :=
  ∀ v p w e, v.Distinct → p.resolve? v = some w → rule.Fault p w e → e.Grounded v

namespace Rule

variable {wanted : String}

theorem anything_grounded : anything.Grounded :=
  fun _ _ _ _ _ _ => False.elim

theorem plain_grounded {test : Json → Prop}
    (hmet : ∀ w, (Expectation.ofMessage wanted).Met w → test w) : (plain test wanted).Grounded := by
  rintro v p w e _ hp ⟨hunfit, rfl⟩
  exact ⟨w, hp, fun h => hunfit (hmet w h)⟩

theorem nested_grounded : nested.Grounded := by
  rintro v p w e _ hp ⟨hunfit, rfl⟩
  exact ⟨w, hp, hunfit⟩

/-- The first fault of a list is that of an item, where the item stands. -/
theorem items_grounded {item : Rule} (hitem : item.Grounded) {v : Json} {p : Pointer}
    {items : List Json} {e : LoadError} (hv : v.Distinct) (hp : p.resolve? v = some (.arr items))
    (h : FirstFault item.Fits (fun i => item.Fault (p.element i)) items e) : e.Grounded v := by
  obtain ⟨before, x, after, rfl, _, hfault⟩ := h
  refine hitem v _ x e hv (Pointer.resolve?_item hp ?_) hfault
  simp

/-- The first fault of the members of an object is that of a member, where the member stands. -/
theorem members_grounded {member : String → Rule} (hmember : ∀ key, (member key).Grounded)
    {v : Json} {p : Pointer} {members : OrderedMap Json} {e : LoadError} (hv : v.Distinct)
    (hp : p.resolve? v = some (.obj members))
    (h : FirstFault (fun m => (member m.1).Fits m.2)
      (fun _ m => (member m.1).Fault (p.child m.1) m.2) members e) : e.Grounded v := by
  obtain ⟨before, m, after, hmembers, _, hfault⟩ := h
  cases Pointer.resolve?_distinct hv hp with
  | obj hkeys _ =>
      have hmem : (m.1, m.2) ∈ members := by
        rw [hmembers]
        simp
      exact hmember m.1 v _ m.2 e hv
        (Pointer.resolve?_member hp (OrderedMap.get?_of_mem hkeys hmem)) hfault

theorem list_grounded {item : Rule} (hitem : item.Grounded)
    (hmet : ∀ w, (Expectation.ofMessage wanted).Met w → ∃ items, w = .arr items) :
    (list item wanted).Grounded := by
  rintro v p w e hv hp (⟨hunfit, rfl⟩ | ⟨items, rfl, hfirst⟩)
  · exact ⟨w, hp, fun h => hunfit (hmet w h)⟩
  · exact items_grounded hitem hv hp hfirst

theorem object_grounded {member : String → Rule} (hmember : ∀ key, (member key).Grounded) :
    (object member (unfit "an object")).Grounded := by
  rintro v p w e hv hp (⟨hunfit, rfl⟩ | ⟨members, rfl, hfirst⟩)
  · exact ⟨w, hp, hunfit⟩
  · exact members_grounded hmember hv hp hfirst

theorem string_grounded : string.Grounded :=
  plain_grounded fun _ => id

theorem boolean_grounded : boolean.Grounded :=
  plain_grounded fun _ => id

/-- A lone schema or a list of them is at fault as neither, or as a list. -/
theorem schemaOrSchemas_grounded : schemaOrSchemas.Grounded := by
  rintro v p w e hv hp ⟨hunfit, hfault⟩
  rcases hfault with ⟨hnone, rfl⟩ | ⟨items, rfl, hfirst⟩
  · exact ⟨w, hp, fun h => h.elim hunfit hnone⟩
  · exact items_grounded nested_grounded hv hp hfirst

theorem discriminatorMember_grounded (key : String) : (discriminatorMember key).Grounded := by
  unfold discriminatorMember
  split
  · exact string_grounded
  · exact object_grounded fun _ => string_grounded
  · exact anything_grounded

theorem xmlMember_grounded (key : String) : (xmlMember key).Grounded := by
  unfold xmlMember
  split
  · exact string_grounded
  · exact string_grounded
  · exact string_grounded
  · exact boolean_grounded
  · exact boolean_grounded
  · exact anything_grounded

theorem externalDocsMember_grounded (key : String) : (externalDocsMember key).Grounded := by
  unfold externalDocsMember
  split
  · exact string_grounded
  · exact string_grounded
  · exact anything_grounded

theorem shape_grounded (shape : Shape) : shape.rule.Grounded := by
  cases shape with
  | text => exact string_grounded
  | number => exact plain_grounded fun _ => id
  | natural => exact plain_grounded fun _ => id
  | flag => exact boolean_grounded
  | names => exact list_grounded string_grounded fun _ => id
  | values => exact list_grounded anything_grounded fun _ => id
  | schemas => exact list_grounded nested_grounded fun _ => id
  | schemaOrSchemas => exact schemaOrSchemas_grounded
  | properties => exact object_grounded fun _ => nested_grounded
  | any => exact anything_grounded
  | discriminator => exact object_grounded discriminatorMember_grounded
  | xml => exact object_grounded xmlMember_grounded
  | externalDocs => exact object_grounded externalDocsMember_grounded

theorem schemaMember_grounded (key : String) : (schemaMember key).Grounded := by
  cases hkey : Keyword.ofName? key with
  | none =>
      rw [schemaMember_unknown hkey]
      exact anything_grounded
  | some k =>
      obtain rfl := Keyword.name_of_ofName? hkey
      rw [schemaMember_name]
      exact shape_grounded k.shape

theorem schema_grounded : schema.Grounded := by
  rintro v p w e hv hp (⟨hunfit, rfl⟩ | ⟨members, rfl, hfirst⟩)
  · exact ⟨w, hp, hunfit⟩
  · exact members_grounded schemaMember_grounded hv hp hfirst

end Rule

/-- The place in an error of loading a part of a document leads to the offending value. -/
theorem load_error_grounded {e : LoadError} (hv : v.Distinct) (hp : p.resolve? v = some w)
    (h : load p w = .error e) : e.Grounded v :=
  Rule.schema_grounded v p w e hv hp (((load_decides p w).refuses e).mp h)

/-- So does the place in an error of building the schema of a fragment. -/
theorem build_error_grounded {fragment : Fragment} {e : LoadError} (hv : v.Distinct)
    (hfragment : fragment.Grounded v) (h : fragment.build = .error e) : e.Grounded v := by
  unfold Fragment.build at h
  split at h
  next reference hreference =>
    cases h
    obtain ⟨w, hmember, hstring⟩ := Option.bind_eq_some_iff.mp hreference
    exact ⟨fragment.value, hfragment, by rw [hmember, string?_eq_some hstring]⟩
  next => exact load_error_grounded hv hfragment h

/-- A fragment that can be built is loaded from its place. -/
theorem load_of_build {fragment : Fragment} {s : Schema Fragment} (h : fragment.build = .ok s) :
    load fragment.origin fragment.value = .ok s := by
  unfold Fragment.build at h
  split at h
  · cases h
  · exact h

end Source
end ApiSchema
