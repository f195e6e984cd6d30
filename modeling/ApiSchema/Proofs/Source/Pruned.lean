import ApiSchema.Proofs.Source.Transport

/-!
Members that nothing is made of.

A schema object makes nothing of a member that is no keyword, no extension and no reference; objects
under `discriminator`, `xml` and `externalDocs` have members of their own and make nothing of the
rest. Without such members, wherever a document has them, the document loads as before and leads to
the same nested schemas, which have none either. So pruning commutes with going down.
-/

namespace ApiSchema

/-- Whether an object of a shape makes anything of a member of that name. -/
def Shape.heeds : Shape → String → Bool
  | .discriminator, key => key == "propertyName" || key == "mapping"
  | .xml, key => ["name", "namespace", "prefix", "attribute", "wrapped"].contains key ||
    isExtensionKey key
  | .externalDocs, key => ["description", "url"].contains key || isExtensionKey key
  | _, _ => true

/-- The value without the members that it makes nothing of. -/
def Shape.strip (shape : Shape) : Json → Json
  | .obj members => .obj (members.filter fun m => shape.heeds m.1)
  | w => w

theorem Shape.strip_of_heeds {shape : Shape} (h : ∀ key, shape.heeds key = true) (w : Json) :
    shape.strip w = w := by
  cases w with
  | obj members => simp [Shape.strip, h]
  | _ => rfl

namespace Source

variable {α : Type} {p : Pointer} {v w : Json} {members : OrderedMap Json} {key : String}
  {f : Fragment}

def heeds (key : String) : Bool :=
  (Keyword.ofName? key).isSome || isExtensionKey key || key == "$ref"

theorem heeds_name (k : Keyword) : heeds k.name = true := by
  rw [heeds, Keyword.ofName?_name]
  rfl

def stripMember (key : String) (w : Json) : Json :=
  match Keyword.ofName? key with
  | some k => k.shape.strip w
  | none => w

/-- The schema without the members that it makes nothing of. Nested schemas stay as they are. -/
def strip : Json → Json
  | .obj members =>
    .obj ((members.filter fun m => heeds m.1).map fun m => (m.1, stripMember m.1 m.2))
  | w => w

/-! ### What is read without them -/

section Filter

variable {t : String → Bool}

theorem checkMembers_filter {check : String → Pointer → Json → Except LoadError Unit}
    (h : ∀ key q w, t key = false → check key q w = .ok ()) (members : OrderedMap Json) :
    checkMembers check p (members.filter fun m => t m.1) = checkMembers check p members := by
  induction members with
  | nil => rfl
  | cons member rest ih =>
      obtain ⟨key, w⟩ := member
      cases hkey : t key with
      | true =>
          rw [List.filter_cons_of_pos (by exact hkey), checkMembers, checkMembers, ih]
      | false =>
          rw [List.filter_cons_of_neg (by simp [hkey]), checkMembers, h key _ w hkey, ih]
          rfl

theorem memberField?_filter (get : Json → Option α) (h : t key = true)
    (members : OrderedMap Json) :
    memberField? get p (members.filter fun m => t m.1) key =
      memberField? get p members key := by
  unfold memberField?
  rw [OrderedMap.get?_filter, if_pos h]

theorem readExtensions_filter (h : ∀ key, isExtensionKey key = true → t key = true)
    (members : OrderedMap Json) :
    readExtensions p (members.filter fun m => t m.1) = readExtensions p members := by
  unfold readExtensions
  rw [List.filter_filter]
  refine congrArg (List.map _) (List.filter_congr fun m _ => ?_)
  cases hkey : isExtensionKey m.1 with
  | true => rw [h m.1 hkey]; rfl
  | false => rfl

end Filter

theorem readDiscriminator_strip (p : Pointer) (w : Json) :
    readDiscriminator p (Shape.discriminator.strip w) = readDiscriminator p w := by
  cases w with
  | obj members =>
      have hcheck : ∀ key q w, Shape.discriminator.heeds key = false →
          checkDiscriminatorMember key q w = .ok () := by
        intro key q w hkey
        simp only [Shape.heeds, Bool.or_eq_false_iff, beq_eq_false_iff_ne] at hkey
        rw [checkDiscriminatorMember, if_neg hkey.1, if_neg hkey.2]
      simp only [Shape.strip, readDiscriminator, Json.object?, demand, bind, Except.bind,
        checkMembers_filter hcheck,
        memberField?_filter _ (show Shape.discriminator.heeds "mapping" = true by decide),
        memberField?_filter _ (show Shape.discriminator.heeds "propertyName" = true by decide)]
  | _ => rfl

theorem readXml_strip (p : Pointer) (w : Json) :
    readXml p (Shape.xml.strip w) = readXml p w := by
  cases w with
  | obj members =>
      have hcheck : ∀ key q w, Shape.xml.heeds key = false → checkXmlMember key q w = .ok () := by
        intro key q w hkey
        simp [Shape.heeds] at hkey
        simp [checkXmlMember, hkey]
      have hfield : ∀ {α : Type} (get : Json → Option α) {key : String},
          Shape.xml.heeds key = true →
            memberField? get p (members.filter fun m => Shape.xml.heeds m.1) key =
              memberField? get p members key :=
        fun get _ hkey => memberField?_filter get hkey members
      simp only [Shape.strip, readXml, Json.object?, demand, bind, Except.bind,
        checkMembers_filter hcheck,
        readExtensions_filter (t := Shape.xml.heeds) fun key h => by simp [Shape.heeds, h],
        hfield _ (show Shape.xml.heeds "name" = true by decide),
        hfield _ (show Shape.xml.heeds "namespace" = true by decide),
        hfield _ (show Shape.xml.heeds "prefix" = true by decide),
        hfield _ (show Shape.xml.heeds "attribute" = true by decide),
        hfield _ (show Shape.xml.heeds "wrapped" = true by decide)]
  | _ => rfl

theorem readExternalDocs_strip (p : Pointer) (w : Json) :
    readExternalDocs p (Shape.externalDocs.strip w) = readExternalDocs p w := by
  cases w with
  | obj members =>
      have hcheck : ∀ key q w, Shape.externalDocs.heeds key = false →
          checkExternalDocsMember key q w = .ok () := by
        intro key q w hkey
        simp [Shape.heeds] at hkey
        simp [checkExternalDocsMember, hkey]
      simp only [Shape.strip, readExternalDocs, Json.object?, demand, bind, Except.bind,
        checkMembers_filter hcheck,
        readExtensions_filter (t := Shape.externalDocs.heeds) fun key h => by
          simp [Shape.heeds, h],
        memberField?_filter _ (show Shape.externalDocs.heeds "description" = true by decide),
        memberField?_filter _ (show Shape.externalDocs.heeds "url" = true by decide)]
  | _ => rfl

end Source

open Source in
theorem Shape.read_strip (shape : Shape) (p : Pointer) (w : Json) :
    shape.read p (shape.strip w) = shape.read p w := by
  cases shape with
  | discriminator => exact readDiscriminator_strip p w
  | xml => exact readXml_strip p w
  | externalDocs => exact readExternalDocs_strip p w
  | _ => rw [Shape.strip_of_heeds fun _ => rfl]

namespace Source

variable {α : Type} {p : Pointer} {v w : Json} {members : OrderedMap Json} {key : String}
  {f : Fragment} {step : Step}

theorem carry_id_id (x : Except LoadError α) : carry id id x = x := by
  rw [carry_id]
  cases x <;> rfl

theorem checkSchemaMember_strip (key : String) (q : Pointer) (w : Json) :
    checkSchemaMember key q (stripMember key w) = checkSchemaMember key q w := by
  unfold checkSchemaMember stripMember
  cases Keyword.ofName? key with
  | none => rfl
  | some k => simp only [Shape.read_strip]

theorem checkSchemaMember_of_not_heeds (h : heeds key = false) (q : Pointer) (w : Json) :
    checkSchemaMember key q w = .ok () := by
  simp only [heeds, Bool.or_eq_false_iff] at h
  unfold checkSchemaMember
  rw [Option.isSome_eq_false_iff.mp h.1.1 |> Option.isNone_iff_eq_none.mp]

theorem stripMember_of_isExtensionKey (h : isExtensionKey key = true) (w : Json) :
    stripMember key w = w := by
  rw [stripMember, Transport.ofName?_of_isExtensionKey h]

/-- Nothing is loaded from the members that the schema makes nothing of. -/
theorem load_strip (p : Pointer) (v : Json) : load p (strip v) = load p v := by
  cases v with
  | obj members =>
      have hchild : ∀ key, id (p.child key) = (id p).child key := fun _ => rfl
      simp only [strip, load]
      generalize hkept : (members.filter fun m => heeds m.1) = kept
      have hcheck : checkMembers checkSchemaMember p (kept.map fun m => (m.1, stripMember m.1 m.2)) =
          checkMembers checkSchemaMember p members := by
        have hstripped := checkMembers_carry hchild (r := stripMember)
          (fun key w => (checkSchemaMember_strip key _ w).trans (carry_id_id _).symm) kept
        rw [carry_id_id] at hstripped
        rw [← checkMembers_filter (fun key q w h => checkSchemaMember_of_not_heeds h q w) members,
          hkept]
        exact hstripped
      have hfield : ∀ k : Keyword, memberField?
          (fun value => (k.shape.read (p.child k.name) value).toOption) p
            (kept.map fun m => (m.1, stripMember m.1 m.2)) k.name =
          memberField? (fun value => (k.shape.read (p.child k.name) value).toOption) p members
            k.name := by
        intro k
        rw [← memberField?_filter _ (heeds_name k) members, hkept, ← map_field_move_id
          (memberField? _ p kept _)]
        refine memberField?_move hchild (fun w => ?_) kept
        rw [stripMember, Keyword.ofName?_name, Shape.read_strip, Option.map_id_apply]
      have hextensions : readExtensions p (kept.map fun m => (m.1, stripMember m.1 m.2)) =
          readExtensions p members := by
        rw [← readExtensions_filter (t := heeds) (fun key h => by simp [heeds, h]) members, hkept,
          ← map_entry_move_id (readExtensions p kept)]
        exact readExtensions_move hchild
          (fun key w h => stripMember_of_isExtensionKey h w) kept
      simp only [hcheck, hfield, hextensions]
  | _ => rfl

theorem member?_strip (h : heeds key = true) (v : Json) :
    (strip v).member? key = (v.member? key).map (stripMember key) := by
  cases v with
  | obj members =>
      have hget := OrderedMap.get?_map stripMember key (members.filter fun m => heeds m.1)
      rw [OrderedMap.get?_filter, if_pos h] at hget
      exact hget
  | _ => rfl

theorem elements_strip (f : Fragment) (a : Applicator) :
    Fragment.elements ⟨f.origin, strip f.value⟩ a = f.elements a := by
  have hstill : stripMember a.name = id := by
    cases a <;> exact funext fun w => Shape.strip_of_heeds (fun _ => rfl) w
  unfold Fragment.elements
  rw [member?_strip (by cases a <;> decide), hstill, Option.map_id_apply]

theorem entries_strip (f : Fragment) :
    Fragment.entries ⟨f.origin, strip f.value⟩ = f.entries := by
  have hstill : stripMember "properties" = id :=
    funext fun w => Shape.strip_of_heeds (fun _ => rfl) w
  unfold Fragment.entries
  rw [member?_strip (by decide), hstill, Option.map_id_apply]

/-- Nothing is nested in the members that the schema makes nothing of. -/
theorem step?_strip (f : Fragment) (step : Step) :
    Fragment.step? ⟨f.origin, strip f.value⟩ step = f.step? step := by
  rw [Fragment.step?, Fragment.step?, entries_strip, funext (elements_strip f)]

theorem reference?_strip (f : Fragment) :
    Fragment.reference? ⟨f.origin, strip f.value⟩ = f.reference? := by
  have hstill : stripMember "$ref" = id := rfl
  unfold Fragment.reference?
  rw [member?_strip (by decide), hstill, Option.map_id_apply]

/-! ### At any depth -/

mutual

/-- The schema without members that a schema makes nothing of, at any depth. -/
def pruneSchema : Json → Json
  | .obj members => .obj (pruneMembers members)
  | w => w

def pruneMembers : List (String × Json) → List (String × Json)
  | [] => []
  | (key, w) :: rest =>
    if heeds key then
      (key, match Keyword.ofName? key with
        | some k => pruneValue k.shape w
        | none => w) :: pruneMembers rest
    else pruneMembers rest

def pruneValue (shape : Shape) : Json → Json
  | .arr items =>
    match shape with
    | .schemas | .schemaOrSchemas => .arr (pruneItems items)
    | _ => .arr items
  | .obj members =>
    match shape with
    | .schemaOrSchemas => .obj (pruneMembers members)
    | .properties => .obj (pruneProperties members)
    | shape => .obj (members.filter fun m => shape.heeds m.1)
  | w => w

def pruneItems : List Json → List Json
  | [] => []
  | item :: rest => pruneSchema item :: pruneItems rest

def pruneProperties : List (String × Json) → List (String × Json)
  | [] => []
  | (key, w) :: rest => (key, pruneSchema w) :: pruneProperties rest

end

def Transport.pruning : Transport :=
  .inPlace (fun f => pruneSchema f.value) fun f => by
    cases f.value <;> simp [pruneSchema, Json.isObject]

def Fragment.prune (f : Fragment) : Fragment :=
  ⟨f.origin, pruneSchema f.value⟩

theorem pruneItems_eq (items : List Json) : pruneItems items = items.map pruneSchema := by
  induction items with
  | nil => rfl
  | cons item rest ih => rw [pruneItems, ih, List.map_cons]

theorem pruneProperties_eq (members : OrderedMap Json) :
    pruneProperties members = members.map fun m => (m.1, pruneSchema m.2) := by
  induction members with
  | nil => rfl
  | cons member rest ih => rw [pruneProperties, ih, List.map_cons]

theorem pruneMembers_eq (members : OrderedMap Json) :
    pruneMembers members = (members.filter fun m => heeds m.1).map fun m =>
      (m.1, match Keyword.ofName? m.1 with
        | some k => pruneValue k.shape m.2
        | none => m.2) := by
  induction members with
  | nil => rfl
  | cons member rest ih =>
      rw [pruneMembers, ih]
      split
      next hkey => rw [List.filter_cons_of_pos (by exact hkey), List.map_cons]
      next hkey => rw [List.filter_cons_of_neg (by exact hkey)]

theorem pruneValue_eq (shape : Shape) (p : Pointer) (w : Json) :
    pruneValue shape w = shape.refill .pruning p (shape.strip w) := by
  have hitems : ∀ items : List Json, pruneItems items = Transport.pruning.items p items := by
    intro items
    rw [pruneItems_eq]
    apply List.ext_getElem?
    intro i
    rw [Transport.items, List.getElem?_map, List.getElem?_mapIdx]
    rfl
  cases w with
  | arr items =>
      cases shape with
      | schemas => exact congrArg Json.arr (hitems items)
      | schemaOrSchemas => exact congrArg Json.arr (hitems items)
      | _ => rfl
  | obj members =>
      cases shape with
      | schemaOrSchemas =>
          rw [Shape.strip_of_heeds fun _ => rfl]
          rfl
      | properties =>
          rw [Shape.strip_of_heeds fun _ => rfl]
          exact congrArg Json.obj (pruneProperties_eq members)
      | _ => rfl
  | _ => cases shape <;> rfl

/-- To prune a schema is to strip it and to prune its nested schemas. -/
theorem pruneSchema_eq (p : Pointer) (v : Json) :
    pruneSchema v = Transport.pruning.refill p (strip v) := by
  cases v with
  | obj members =>
      have hmember : ∀ key w, (match Keyword.ofName? key with
          | some k => pruneValue k.shape w
          | none => w) = Transport.pruning.member p key (stripMember key w) := by
        intro key w
        unfold Transport.member stripMember
        cases Keyword.ofName? key with
        | none => rfl
        | some k => exact pruneValue_eq k.shape _ w
      refine congrArg Json.obj ?_
      rw [pruneMembers_eq, List.map_map]
      exact List.map_congr_left fun m _ => congrArg (m.1, ·) (hmember m.1 m.2)
  | _ => rfl

/-- Pruning commutes with loading and with every step down. -/
theorem Fragment.commutes_prune : Fragment.Commutes id Fragment.prune := by
  have hwhole : ∀ f : Fragment, f.prune = Transport.pruning.whole ⟨f.origin, strip f.value⟩ :=
    fun f => congrArg (Fragment.mk f.origin) (pruneSchema_eq f.origin f.value)
  refine ⟨fun _ => rfl, fun f step => ?_, fun f => ?_, fun f => ?_⟩
  · rw [hwhole, Transport.step?_whole, step?_strip]
    rfl
  · rw [hwhole, Transport.reference?_whole, reference?_strip]
  · have hload := Transport.load_refill Transport.pruning f.origin (strip f.value)
    rw [load_strip, ← pruneSchema_eq] at hload
    exact hload

end Source
end ApiSchema
