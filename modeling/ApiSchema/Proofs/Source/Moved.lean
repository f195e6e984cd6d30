import ApiSchema.Proofs.Source.Parts
import ApiSchema.Proofs.View.Steps

/-!
What is read, moved to other places.

Moving a schema changes its places and its nested schemas and nothing else. A result of the loader
is carried along with its places, those of an error included. The readers go along: reading a moved
list or object gives what is read from it, moved.
-/

namespace ApiSchema

def LoadError.move (place : Pointer → Pointer) : LoadError → LoadError
  | .malformedJson fault => .malformedJson fault
  | .malformedYaml => .malformedYaml
  | .notAnObject origin => .notAnObject (place origin)
  | .invalidField origin expected => .invalidField (place origin) expected
  | .unresolvedReference origin reference => .unresolvedReference (place origin) reference

theorem LoadError.move_id (e : LoadError) : e.move id = e := by
  cases e <;> rfl

namespace Source

variable {α β α' β' C D : Type}

def Field.move (place : Pointer → Pointer) (g : α → β) (field : Field α) : Field β :=
  ⟨g field.value, field.keyAt.map place, field.valueAt.map place⟩

def Element.move (place : Pointer → Pointer) (g : α → β) (e : Element α) : Element β :=
  ⟨g e.value, place e.origin⟩

def Entry.move (place : Pointer → Pointer) (g : α → β) (e : Entry α) : Entry β :=
  ⟨e.key, place e.keyAt, g e.value, place e.valueAt⟩

def Discriminator.move (place : Pointer → Pointer) (d : Discriminator) : Discriminator where
  propertyName := d.propertyName.map (Field.move place id)
  mapping := d.mapping.map (Entry.move place id)

def Xml.move (place : Pointer → Pointer) (x : Xml) : Xml where
  name := x.name.map (Field.move place id)
  uri := x.uri.map (Field.move place id)
  qualifier := x.qualifier.map (Field.move place id)
  asAttribute := x.asAttribute.map (Field.move place id)
  wrapped := x.wrapped.map (Field.move place id)
  extensions := x.extensions.map (Entry.move place id)

def ExternalDocs.move (place : Pointer → Pointer) (d : ExternalDocs) : ExternalDocs where
  description := d.description.map (Field.move place id)
  url := d.url.map (Field.move place id)
  extensions := d.extensions.map (Entry.move place id)

end Source

open Source in
def Shape.moveValue {C D : Type} (place : Pointer → Pointer) (g : C → D) :
    (shape : Shape) → shape.Value C → shape.Value D
  | .schemas | .schemaOrSchemas => List.map (Element.move place g)
  | .properties => List.map (Entry.move place g)
  | .names => List.map (Element.move place id)
  | .values => List.map (Element.move place id)
  | .text => fun s => s
  | .number => fun x => x
  | .natural => fun n => n
  | .flag => fun b => b
  | .any => fun v => v
  | .discriminator => Discriminator.move place
  | .xml => Xml.move place
  | .externalDocs => ExternalDocs.move place

namespace Source

variable {α β α' β' C D : Type} {place : Pointer → Pointer}

/-- The schema with all its places moved and other nested schemas in place of its own. -/
def Schema.move (place : Pointer → Pointer) (g : C → D) (s : Schema C) : Schema D :=
  .ofFields (fun k => (s.get k).map (Field.move place (k.shape.moveValue place g)))
    (s.extensions.map (Entry.move place id))

def carry (place : Pointer → Pointer) (g : α → β) : Except LoadError α → Except LoadError β
  | .error e => .error (e.move place)
  | .ok a => .ok (g a)

theorem carry_bind {x : Except LoadError α} {g : α → α'} {g' : β → β'}
    {k : α → Except LoadError β} {k' : α' → Except LoadError β'}
    (h : ∀ a, k' (g a) = carry place g' (k a)) :
    (carry place g x >>= k') = carry place g' (x >>= k) := by
  cases x with
  | error e => rfl
  | ok a => exact h a

theorem toOption_carry (g : α → β) (x : Except LoadError α) :
    (carry place g x).toOption = x.toOption.map g := by
  cases x <;> rfl

theorem demand_carry (expected : Expectation) (p : Pointer) (x : Option α) :
    demand expected (place p) x = carry place id (demand expected p x) := by
  cases x <;> rfl

theorem readText_carry (p : Pointer) (w : Json) :
    readText (place p) w = carry place id (readText p w) :=
  demand_carry .text p w.string?

theorem readFlag_carry (p : Pointer) (w : Json) :
    readFlag (place p) w = carry place id (readFlag p w) :=
  demand_carry .flag p w.bool?

theorem checkXmlMember_carry (key : String) (q : Pointer) (w : Json) :
    checkXmlMember key (place q) w = carry place id (checkXmlMember key q w) := by
  unfold checkXmlMember
  split
  · rw [readText_carry]
    exact carry_bind fun _ => rfl
  · split
    · rw [readFlag_carry]
      exact carry_bind fun _ => rfl
    · rfl

theorem checkExternalDocsMember_carry (key : String) (q : Pointer) (w : Json) :
    checkExternalDocsMember key (place q) w =
      carry place id (checkExternalDocsMember key q w) := by
  unfold checkExternalDocsMember
  split
  · rw [readText_carry]
    exact carry_bind fun _ => rfl
  · rfl

section Lists

variable {p : Pointer} {read : Pointer → Json → Except LoadError α}
  {read' : Pointer → Json → Except LoadError β} {g : α → β}

/-- Items are read in a moved list as in the list, if each of them is. -/
theorem readElements_carry {r : Nat → Json → Json}
    (hplace : ∀ index, place (p.element index) = (place p).element index)
    (hread : ∀ index w, read' (place (p.element index)) (r index w) =
      carry place g (read (p.element index) w)) (index : Nat) (items : List Json) :
    readElements read' (place p) index (items.mapIdx fun i => r (index + i)) =
      carry place (List.map (Element.move place g)) (readElements read p index items) := by
  induction items generalizing index with
  | nil => rfl
  | cons item rest ih =>
      have hrest : (fun i => r (index + (i + 1))) = fun i => r (index + 1 + i) := by
        funext i
        rw [Nat.add_assoc, Nat.add_comm 1 i]
      rw [List.mapIdx_cons, hrest, readElements, ← hplace, Nat.add_zero, hread]
      refine carry_bind fun a => ?_
      rw [ih]
      exact carry_bind fun as => rfl

/-- Members are read in a moved object as in the object, if each of them is. -/
theorem readEntries_carry {r : String → Json → Json}
    (hplace : ∀ key, place (p.child key) = (place p).child key)
    (hread : ∀ key w, read' (place (p.child key)) (r key w) =
      carry place g (read (p.child key) w)) (members : OrderedMap Json) :
    readEntries read' (place p) (members.map fun m => (m.1, r m.1 m.2)) =
      carry place (List.map (Entry.move place g)) (readEntries read p members) := by
  induction members with
  | nil => rfl
  | cons member rest ih =>
      obtain ⟨key, w⟩ := member
      rw [List.map_cons, readEntries, ← hplace, hread]
      refine carry_bind fun a => ?_
      rw [ih]
      exact carry_bind fun as => rfl

end Lists

section Members

variable {p : Pointer} {r : String → Json → Json}
  (hplace : ∀ key, place (p.child key) = (place p).child key)
include hplace

theorem checkMembers_carry {check : String → Pointer → Json → Except LoadError Unit}
    (hcheck : ∀ key w, check key (place (p.child key)) (r key w) =
      carry place id (check key (p.child key) w)) (members : OrderedMap Json) :
    checkMembers check (place p) (members.map fun m => (m.1, r m.1 m.2)) =
      carry place id (checkMembers check p members) := by
  induction members with
  | nil => rfl
  | cons member rest ih =>
      obtain ⟨key, w⟩ := member
      rw [List.map_cons, checkMembers, ← hplace, hcheck]
      exact carry_bind fun _ => ih

theorem memberField?_move {get : Json → Option α} {get' : Json → Option β} {g : α → β}
    {key : String} (hget : ∀ w, get' (r key w) = (get w).map g) (members : OrderedMap Json) :
    memberField? get' (place p) (members.map fun m => (m.1, r m.1 m.2)) key =
      (memberField? get p members key).map (Field.move place g) := by
  unfold memberField?
  rw [OrderedMap.get?_map]
  cases OrderedMap.get? key members with
  | none => rfl
  | some w =>
      simp only [Option.map_some, bind, Option.bind_some, hget]
      cases get w with
      | none => rfl
      | some a => simp [Field.loaded, Field.move, hplace]

theorem readExtensions_move (hfill : ∀ key w, isExtensionKey key = true → r key w = w)
    (members : OrderedMap Json) :
    readExtensions (place p) (members.map fun m => (m.1, r m.1 m.2)) =
      (readExtensions p members).map (Entry.move place id) := by
  unfold readExtensions
  rw [List.filter_map, List.map_map, List.map_map]
  refine List.map_congr_left fun m hm => ?_
  have hkey : isExtensionKey m.1 = true := (List.mem_filter.mp hm).2
  simp only [Function.comp_apply, Entry.move, hplace, hfill m.1 m.2 hkey, id_eq]

end Members

section Places

variable (hchild : ∀ p key, place (p.child key) = (place p).child key)
  (helement : ∀ p index, place (p.element index) = (place p).element index)

include helement in
/-- Items that stay as they are, read at another place. -/
theorem readElements_place {read : Pointer → Json → Except LoadError α} {g : α → β}
    {read' : Pointer → Json → Except LoadError β}
    (hread : ∀ q w, read' (place q) w = carry place g (read q w)) (p : Pointer) (index : Nat)
    (items : List Json) : readElements read' (place p) index items =
      carry place (List.map (Element.move place g)) (readElements read p index items) := by
  have hitems := readElements_carry (r := fun _ w => w) (helement p) (fun _ w => hread _ w)
    index items
  have hsame : items.mapIdx (fun _ w => w) = items := by
    apply List.ext_getElem?
    intro i
    rw [List.getElem?_mapIdx, Option.map_id']
  rwa [hsame] at hitems

include hchild

/-- Members that stay as they are, read at another place. -/
theorem readEntries_place {read : Pointer → Json → Except LoadError α} {g : α → β}
    {read' : Pointer → Json → Except LoadError β}
    (hread : ∀ q w, read' (place q) w = carry place g (read q w)) (p : Pointer)
    (members : OrderedMap Json) : readEntries read' (place p) members =
      carry place (List.map (Entry.move place g)) (readEntries read p members) := by
  have hmembers := readEntries_carry (r := fun _ w => w) (hchild p) (fun _ w => hread _ w)
    members
  rwa [List.map_id'] at hmembers

theorem memberField?_place {get : Json → Option α} {get' : Json → Option β} {g : α → β}
    (hget : ∀ w, get' w = (get w).map g) (p : Pointer) (members : OrderedMap Json)
    (key : String) : memberField? get' (place p) members key =
      (memberField? get p members key).map (Field.move place g) := by
  have hfield : memberField? get' (place p) (members.map fun m => (m.1, m.2)) key = _ :=
    memberField?_move (r := fun _ w => w) (hchild p) hget members
  rwa [List.map_id'] at hfield

theorem checkMembers_place {check : String → Pointer → Json → Except LoadError Unit}
    (hcheck : ∀ key q w, check key (place q) w = carry place id (check key q w)) (p : Pointer)
    (members : OrderedMap Json) :
    checkMembers check (place p) members = carry place id (checkMembers check p members) := by
  have hmembers := checkMembers_carry (r := fun _ w => w) (hchild p)
    (fun key w => hcheck key _ w) members
  rwa [List.map_id'] at hmembers

theorem readExtensions_place (p : Pointer) (members : OrderedMap Json) :
    readExtensions (place p) members = (readExtensions p members).map (Entry.move place id) := by
  have hmembers := readExtensions_move (r := fun _ w => w) (hchild p) (fun _ _ _ => rfl) members
  rwa [List.map_id'] at hmembers

theorem checkDiscriminatorMember_carry (key : String) (q : Pointer) (w : Json) :
    checkDiscriminatorMember key (place q) w =
      carry place id (checkDiscriminatorMember key q w) := by
  unfold checkDiscriminatorMember
  split
  · rw [readText_carry]
    exact carry_bind fun _ => rfl
  · split
    · rw [demand_carry]
      refine carry_bind fun members => ?_
      rw [id_eq, readEntries_place hchild readText_carry]
      exact carry_bind fun _ => rfl
    · rfl

theorem readDiscriminator_carry (p : Pointer) (w : Json) :
    readDiscriminator (place p) w =
      carry place (Discriminator.move place) (readDiscriminator p w) := by
  unfold readDiscriminator
  rw [demand_carry]
  refine carry_bind fun members => ?_
  rw [id_eq, checkMembers_place hchild (checkDiscriminatorMember_carry hchild)]
  refine carry_bind fun _ => ?_
  have hmapping : ∀ value : Json,
      (value.object?.bind fun object =>
          (readEntries readText ((place p).child "mapping") object).toOption) =
        (value.object?.bind fun object =>
          (readEntries readText (p.child "mapping") object).toOption).map
            (List.map (Entry.move place id)) := by
    intro value
    rw [Option.map_bind]
    refine congrArg value.object?.bind (funext fun object => ?_)
    rw [Function.comp_apply, ← toOption_carry, ← readEntries_place hchild readText_carry, hchild]
  simp only [bind] at hmapping ⊢
  rw [memberField?_place hchild (fun w => (Option.map_id_apply ..).symm),
    memberField?_place hchild hmapping]
  generalize memberField? (fun value => value.object?.bind fun object =>
    (readEntries readText (p.child "mapping") object).toOption) p members "mapping" = field
  cases field <;> rfl

theorem readXml_carry (p : Pointer) (w : Json) :
    readXml (place p) w = carry place (Xml.move place) (readXml p w) := by
  unfold readXml
  rw [demand_carry]
  refine carry_bind fun members => ?_
  rw [id_eq, checkMembers_place hchild checkXmlMember_carry]
  refine carry_bind fun _ => ?_
  simp only [memberField?_place hchild fun w => (Option.map_id_apply ..).symm,
    readExtensions_place hchild]
  rfl

theorem readExternalDocs_carry (p : Pointer) (w : Json) :
    readExternalDocs (place p) w =
      carry place (ExternalDocs.move place) (readExternalDocs p w) := by
  unfold readExternalDocs
  rw [demand_carry]
  refine carry_bind fun members => ?_
  rw [id_eq, checkMembers_place hchild checkExternalDocsMember_carry]
  refine carry_bind fun _ => ?_
  simp only [memberField?_place hchild fun w => (Option.map_id_apply ..).symm,
    readExtensions_place hchild]
  rfl

end Places

section Still

variable {α β C D : Type}

theorem carry_id (g : α → β) (x : Except LoadError α) : carry id g x = x.map g := by
  cases x with
  | error e => exact congrArg Except.error e.move_id
  | ok a => rfl

theorem Field.move_id (g : α → β) : Field.move id g = Field.map g := by
  funext field
  simp [Field.move, Field.map]

theorem map_field_move_id (field : Option (Field α)) : field.map (Field.move id id) = field := by
  rw [Field.move_id]
  exact Option.map_id_apply

theorem map_element_move_id (xs : List (Element α)) : xs.map (Element.move id id) = xs :=
  List.map_id xs

theorem map_entry_move_id (xs : List (Entry α)) : xs.map (Entry.move id id) = xs :=
  List.map_id xs

end Still

end Source

open Source in
/-- What is moved nowhere only has its nested schemas exchanged. -/
theorem Shape.moveValue_id {C D : Type} (g : C → D) (shape : Shape) :
    shape.moveValue id g = shape.mapValue g := by
  cases shape with
  | names => exact funext map_element_move_id
  | values => exact funext map_element_move_id
  | discriminator =>
      funext d
      simp only [moveValue, mapValue, Discriminator.move, map_field_move_id, map_entry_move_id]
  | xml =>
      funext x
      simp only [moveValue, mapValue, Xml.move, map_field_move_id, map_entry_move_id]
  | externalDocs =>
      funext d
      simp only [moveValue, mapValue, ExternalDocs.move, map_field_move_id, map_entry_move_id]
  | _ => rfl

namespace Source

theorem Schema.get_move {C D : Type} (place : Pointer → Pointer) (g : C → D) (s : Schema C)
    (k : Keyword) :
    (s.move place g).get k = (s.get k).map (Field.move place (k.shape.moveValue place g)) :=
  Schema.get_ofFields ..

theorem Schema.move_id {C D : Type} (g : C → D) (s : Schema C) : s.move id g = s.map g := by
  refine Schema.ext_get (fun k => ?_) (map_entry_move_id s.extensions)
  rw [Schema.get_move, Schema.get_map, Shape.moveValue_id, Field.move_id]

end Source
end ApiSchema
