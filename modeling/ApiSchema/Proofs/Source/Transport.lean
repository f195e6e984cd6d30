import ApiSchema.Proofs.Source.Descent
import ApiSchema.Proofs.Source.Moved
import ApiSchema.Proofs.Source.Rendering
import ApiSchema.Proofs.View.Walk

/-!
The loader looks at the places and the kinds of nested schemas, and no further.

A transport takes documents elsewhere: it moves their places and puts other values in place of their
nested schemas, objects for objects. `Transport.refill` is the document with its nested schemas
exchanged. What is loaded from that at the moved place is what is loaded from the document, with its
places moved and its fragments exchanged, an error included.
-/

namespace ApiSchema
namespace Source

/-- A way to move places and to exchange nested schemas. Places below a place stay below it, and
objects are exchanged for objects, anything else for something else. -/
structure Transport where
  place : Pointer → Pointer
  value : Fragment → Json
  place_child : ∀ p key, place (p.child key) = (place p).child key
  place_element : ∀ p index, place (p.element index) = (place p).element index
  isObject_value : ∀ f, (value f).isObject = f.value.isObject

namespace Transport

variable (τ : Transport) (p : Pointer)

/-- Where a fragment is taken, and what is put there. -/
def fragment (f : Fragment) : Fragment :=
  ⟨τ.place f.origin, τ.value f⟩

def items (items : List Json) : List Json :=
  items.mapIdx fun index item => τ.value ⟨p.element index, item⟩

end Transport
end Source

open Source in
/-- A value of a shape with its nested schemas exchanged. -/
def Shape.refill (τ : Transport) (p : Pointer) (w : Json) : Shape → Json
  | .schemas =>
    match w with
    | .arr items => .arr (τ.items p items)
    | w => w
  | .schemaOrSchemas =>
    match w with
    | .arr items => .arr (τ.items p items)
    | .obj members => τ.value ⟨p, .obj members⟩
    | w => w
  | .properties =>
    match w with
    | .obj members => .obj (members.map fun m => (m.1, τ.value ⟨p.child m.1, m.2⟩))
    | w => w
  | _ => w

namespace Source
namespace Transport

variable (τ : Transport) (p : Pointer)

def member (key : String) (w : Json) : Json :=
  match Keyword.ofName? key with
  | some k => k.shape.refill τ (p.child key) w
  | none => w

/-- A document at `p` with its nested schemas exchanged. -/
def refill : Json → Json
  | .obj members => .obj (members.map fun m => (m.1, τ.member p m.1 m.2))
  | w => w

variable {τ : Transport} {p : Pointer} {w : Json} {f : Fragment} {key : String}

theorem exists_object (members : OrderedMap Json) :
    ∃ members', τ.value ⟨p, .obj members⟩ = .obj members' := by
  have hobject := τ.isObject_value ⟨p, .obj members⟩
  cases hvalue : τ.value ⟨p, .obj members⟩ with
  | obj members' => exact ⟨members', rfl⟩
  | _ => rw [hvalue] at hobject; cases hobject

theorem readFragment_value (q : Pointer) (w : Json) :
    readFragment (τ.place q) (τ.value ⟨q, w⟩) = carry τ.place τ.fragment (readFragment q w) := by
  unfold readFragment
  rw [τ.isObject_value]
  split <;> rfl

theorem readFragments_items (items : List Json) :
    readElements readFragment (τ.place p) 0 (τ.items p items) =
      carry τ.place (List.map (Element.move τ.place τ.fragment))
        (readElements readFragment p 0 items) := by
  have hitems := readElements_carry (r := fun index w => τ.value ⟨p.element index, w⟩)
    (τ.place_element p) (fun _ _ => readFragment_value _ _) 0 items
  simp only [Nat.zero_add] at hitems
  exact hitems

theorem readSchemas_refill : readSchemas (τ.place p) (Shape.schemas.refill τ p w) =
    carry τ.place (List.map (Element.move τ.place τ.fragment)) (readSchemas p w) := by
  cases w with
  | arr items => exact readFragments_items items
  | _ => rfl

theorem readSchemaOrSchemas_refill :
    readSchemaOrSchemas (τ.place p) (Shape.schemaOrSchemas.refill τ p w) =
      carry τ.place (List.map (Element.move τ.place τ.fragment)) (readSchemaOrSchemas p w) := by
  cases w with
  | arr items => exact readFragments_items items
  | obj members =>
      obtain ⟨members', hvalue⟩ := τ.exists_object (p := p) members
      simp only [Shape.refill, hvalue, readSchemaOrSchemas, carry, List.map_cons, List.map_nil,
        Element.move, fragment]
  | _ => rfl

end Transport
end Source

open Source Transport in
/-- A value of a shape is read, after the exchange, as what is read from it, moved. -/
theorem Shape.read_refill {τ : Transport} {p : Pointer} {w : Json} (shape : Shape) :
    shape.read (τ.place p) (shape.refill τ p w) =
      carry τ.place (shape.moveValue τ.place τ.fragment) (shape.read p w) := by
  have hlist : ∀ {α : Type} (read : Pointer → Json → Except LoadError α)
      (_ : ∀ q w, read (τ.place q) w = carry τ.place id (read q w)),
      (demand .array (τ.place p) w.array? >>= readElements read (τ.place p) 0) =
        carry τ.place (List.map (Element.move τ.place id))
          (demand .array p w.array? >>= readElements read p 0) := by
    intro α read hread
    rw [demand_carry]
    exact carry_bind fun items => readElements_place τ.place_element hread p 0 items
  cases shape with
  | text => exact readText_carry p w
  | number => exact demand_carry .number p w.number?
  | natural => exact demand_carry .natural p w.natural?
  | flag => exact readFlag_carry p w
  | names => exact hlist readText readText_carry
  | values => exact hlist (fun _ item => .ok item) fun _ _ => rfl
  | schemas => exact readSchemas_refill
  | schemaOrSchemas => exact readSchemaOrSchemas_refill
  | properties =>
      cases w with
      | obj members =>
          exact readEntries_carry (r := fun key w => τ.value ⟨p.child key, w⟩) (τ.place_child p)
            (fun _ _ => readFragment_value _ _) members
      | _ => rfl
  | any => rfl
  | discriminator => exact readDiscriminator_carry τ.place_child p w
  | xml => exact readXml_carry τ.place_child p w
  | externalDocs => exact readExternalDocs_carry τ.place_child p w

namespace Source
namespace Transport

variable {τ : Transport} {p : Pointer} {v w : Json} {f g : Fragment} {key : String} {step : Step}

theorem member_name (k : Keyword) (w : Json) :
    τ.member p k.name w = k.shape.refill τ (p.child k.name) w := by
  rw [member, Keyword.ofName?_name]

/-- A member under no keyword stays as it is. -/
theorem member_of_unknown (h : Keyword.ofName? key = none) (w : Json) : τ.member p key w = w := by
  rw [member, h]

theorem checkSchemaMember_refill (key : String) (w : Json) :
    checkSchemaMember key (τ.place (p.child key)) (τ.member p key w) =
      carry τ.place id (checkSchemaMember key (p.child key) w) := by
  unfold checkSchemaMember member
  cases Keyword.ofName? key with
  | none => rfl
  | some k =>
      simp only [Shape.read_refill]
      exact carry_bind fun _ => rfl

/-- No keyword is an extension key. -/
theorem ofName?_of_isExtensionKey (h : isExtensionKey key = true) : Keyword.ofName? key = none := by
  cases hname : Keyword.ofName? key with
  | none => rfl
  | some k =>
      rw [← Keyword.name_of_ofName? hname, isExtensionKey_name] at h
      cases h

/-- What is loaded after the exchange is what is loaded before, moved. -/
theorem load_refill (τ : Transport) (p : Pointer) (v : Json) :
    load (τ.place p) (τ.refill p v) =
      carry τ.place (Schema.move τ.place τ.fragment) (load p v) := by
  cases v with
  | obj members =>
      simp only [refill, load]
      rw [checkMembers_carry (τ.place_child p) checkSchemaMember_refill]
      refine carry_bind fun _ => ?_
      have hfield : ∀ k : Keyword, memberField?
          (fun value => (k.shape.read ((τ.place p).child k.name) value).toOption) (τ.place p)
          (members.map fun m => (m.1, τ.member p m.1 m.2)) k.name =
            (memberField? (fun value => (k.shape.read (p.child k.name) value).toOption) p members
              k.name).map (Field.move τ.place (k.shape.moveValue τ.place τ.fragment)) := by
        refine fun k => memberField?_move (τ.place_child p) (fun w => ?_) members
        rw [member_name, ← τ.place_child, Shape.read_refill, toOption_carry]
      have hextensions := readExtensions_move (τ.place_child p) (r := τ.member p)
        (fun key w hkey => member_of_unknown (ofName?_of_isExtensionKey hkey) w) members
      simp only [hfield, hextensions]
      exact congrArg Except.ok (by simp [Schema.move])
  | _ => rfl

/-- Nested schemas are exchanged where they stand. -/
def inPlace (value : Fragment → Json) (hobject : ∀ f, (value f).isObject = f.value.isObject) :
    Transport where
  place := id
  value := value
  place_child _ _ := rfl
  place_element _ _ := rfl
  isObject_value := hobject

/-- What is loaded after an exchange in place has its nested schemas exchanged, and nothing else. -/
theorem load_inPlace (value : Fragment → Json)
    (hobject : ∀ f, (value f).isObject = f.value.isObject) (p : Pointer) (v : Json) :
    load p ((inPlace value hobject).refill p v) =
      (load p v).map (Schema.map fun f => ⟨f.origin, value f⟩) := by
  have hload := load_refill (inPlace value hobject) p v
  rw [show (inPlace value hobject).place = id from rfl, carry_id] at hload
  rw [← funext (Schema.move_id fun f : Fragment => (⟨f.origin, value f⟩ : Fragment))]
  exact hload

/-- The document of a fragment, moved, with its nested schemas exchanged. -/
def whole (τ : Transport) (f : Fragment) : Fragment :=
  ⟨τ.place f.origin, τ.refill f.origin f.value⟩

theorem member?_refill (key : String) (v : Json) :
    (τ.refill p v).member? key = (v.member? key).map (τ.member p key) := by
  cases v with
  | obj members => exact OrderedMap.get?_map (τ.member p) key members
  | _ => rfl

theorem member_applicator (a : Applicator) (w : Json) : τ.member p a.name w =
    match w with
    | .arr items => .arr (τ.items (p.child a.name) items)
    | .obj members => if a.allowsLone then τ.value ⟨p.child a.name, .obj members⟩ else .obj members
    | w => w := by
  cases a <;> cases w <;> rfl

theorem member_properties (w : Json) : τ.member p "properties" w =
    match w with
    | .obj members =>
      .obj (members.map fun m => (m.1, τ.value ⟨(p.child "properties").child m.1, m.2⟩))
    | w => w := by
  cases w <;> rfl

/-- The lists of nested schemas after the exchange. -/
theorem elements_whole (τ : Transport) (f : Fragment) (a : Applicator) :
    (τ.whole f).elements a = (f.elements a).map τ.fragment := by
  unfold Fragment.elements
  rw [whole, member?_refill]
  cases f.value.member? a.name with
  | none => rfl
  | some w =>
      rw [Option.map_some, member_applicator]
      cases w with
      | arr items =>
          apply List.ext_getElem?
          intro i
          simp only [Transport.items, List.getElem?_mapIdx, List.getElem?_map, Option.map_map]
          refine congrArg (Option.map · _) (funext fun w => ?_)
          simp only [Function.comp_apply, fragment, τ.place_element, τ.place_child]
      | obj members =>
          obtain ⟨members', hvalue⟩ := τ.exists_object (p := f.origin.child a.name) members
          by_cases hlone : a.allowsLone = true
          · simp [hlone, hvalue, fragment, τ.place_child]
          · simp [hlone]
      | _ => rfl

theorem entries_whole (τ : Transport) (f : Fragment) :
    (τ.whole f).entries = f.entries.map fun e => (e.1, τ.fragment e.2) := by
  unfold Fragment.entries
  rw [whole, member?_refill]
  cases f.value.member? "properties" with
  | none => rfl
  | some w =>
      rw [Option.map_some, member_properties]
      cases w with
      | obj members => simp [fragment, τ.place_child, Function.comp_def]
      | _ => rfl

/-- A step finds the same after the exchange, moved. -/
theorem step?_whole (τ : Transport) (f : Fragment) (step : Step) :
    (τ.whole f).step? step = (f.step? step).map τ.fragment := by
  rw [Fragment.step?, Fragment.step?, ← Step.lookup?_map, entries_whole]
  exact congrArg (Step.lookup? · _ step) (funext (elements_whole τ f))

/-- The exchange leaves a reference alone. -/
theorem reference?_whole (τ : Transport) (f : Fragment) : (τ.whole f).reference? = f.reference? := by
  have hmember : (τ.refill f.origin f.value).member? "$ref" = f.value.member? "$ref" := by
    rw [member?_refill]
    have hid : τ.member f.origin "$ref" = id := funext (member_of_unknown (by decide))
    rw [hid, Option.map_id_apply]
  unfold Fragment.reference?
  rw [whole, hmember]

end Transport

end Source

def Failure.move (place : Pointer → Pointer) : Failure → Failure
  | .duplicateProperty key origin => .duplicateProperty key (place origin)
  | .build error => .build (error.move place)
  | failure => failure

def WalkFailure.move (place : Pointer → Pointer) : WalkFailure → WalkFailure
  | .missing => .missing
  | .failed failure => .failed (failure.move place)

theorem WalkFailure.move_id (failure : WalkFailure) : failure.move id = failure := by
  cases failure with
  | missing => rfl
  | failed failure =>
      cases failure with
      | build e => exact congrArg (failed ∘ Failure.build) e.move_id
      | _ => rfl

namespace Source

variable {α β : Type} {place : Pointer → Pointer} {change : Fragment → Fragment}

def carryStop (place : Pointer → Pointer) (g : α → β) :
    Except (Nat × WalkFailure) α → Except (Nat × WalkFailure) β
  | .error stop => .error (stop.1, stop.2.move place)
  | .ok a => .ok (g a)

namespace Fragment

/-- A change of fragments that can be made before loading and stepping down or after, alike. -/
structure Commutes (place : Pointer → Pointer) (change : Fragment → Fragment) : Prop where
  origin : ∀ f, (change f).origin = place f.origin
  step? : ∀ f step, (change f).step? step = (f.step? step).map change
  reference? : ∀ f, (change f).reference? = f.reference?
  load : ∀ f, Source.load (change f).origin (change f).value =
    carry place (Schema.move place change) (Source.load f.origin f.value)

theorem Commutes.build (h : Commutes place change) (f : Fragment) :
    (change f).build = carry place (Schema.move place change) f.build := by
  unfold Fragment.build
  rw [h.reference?, h.origin]
  cases f.reference? with
  | some target => rfl
  | none => rw [← h.origin]; exact h.load f

/-- What commutes with a step down commutes with going down a path. -/
theorem Commutes.follow (h : Commutes place change) (count : Nat) (f : Fragment)
    (path : List Step) :
    (change f).follow count path = carryStop place change (f.follow count path) := by
  induction path generalizing count f with
  | nil => rfl
  | cons step rest ih =>
      rw [Fragment.follow, Fragment.follow, h.step?]
      cases f.step? step with
      | none => rfl
      | some g =>
          simp only [Option.map_some, h.build]
          cases g.build with
          | error e => rfl
          | ok s => exact ih (count + 1) g

end Fragment
end Source
end ApiSchema
