import ApiSchema.Proofs.Source.Grammar

/-!
The loader keeps to the grammar of schema objects.

Each reader is taken by itself and shown to decide its rule: it succeeds on the values that fit and
on no others, and its error is the first fault. The readers of nested values rest on those of their
parts, up to `load`, which decides the grammar as a whole.
-/

namespace ApiSchema
namespace Source

variable {α : Type}

namespace Decides

variable {read : Pointer → Json → Except LoadError α} {rule : Rule} {wanted : String}
  {expected : Expectation}

/-- A reader of values without parts. -/
theorem plain {get : Json → Option α} {test : Json → Prop}
    (htest : ∀ v, (∃ a, get v = some a) ↔ test v) (hwanted : expected = .ofMessage wanted) :
    Decides (fun p v => demand expected p (get v)) (.plain test wanted) := by
  subst hwanted
  exact fun p v => demand_settles (htest v) _ p

/-- A reader keeps to a rule also when its result is not used. -/
theorem ignoring (h : Decides read rule) :
    Decides (fun p v => do let _ ← read p v) rule :=
  fun p v => by simpa only [bind_pure_comp] using (h p v).map fun _ => ()

/-- A reader of arrays, item by item. -/
theorem list (h : Decides read rule) (hwanted : expected = .ofMessage wanted) :
    Decides (fun p v => do readElements read p 0 (← demand expected p v.array?))
      (.list rule wanted) := by
  subst hwanted
  intro p v
  cases v with
  | arr items =>
      refine (readElements_settles h p items 0).congr ?_ fun e => ?_
      · simp [Rule.list]
      · simp [Rule.list]
  | _ =>
      refine (Settles.error _).congr ?_ fun e => ?_
      · simp [Rule.list]
      · simp [Rule.list, Rule.unfit]

/-- Something done with the members of an object. -/
theorem object {member : String → Rule}
    {f : Pointer → List (String × Json) → Except LoadError α}
    (h : ∀ p members, Settles (f p members) (∀ m ∈ members, (member m.1).Fits m.2)
      (FirstFault (fun m => (member m.1).Fits m.2)
        (fun _ m => (member m.1).Fault (p.child m.1) m.2) members))
    (hwanted : expected = .ofMessage wanted) :
    Decides (fun p v => do f p (← demand expected p v.object?))
      (.object member (Rule.unfit wanted)) := by
  subst hwanted
  intro p v
  cases v with
  | obj members =>
      refine (h p members).congr ?_ fun e => ?_
      · simp [Rule.object]
      · simp [Rule.object]
  | _ =>
      refine (Settles.error _).congr ?_ fun e => ?_
      · simp [Rule.object]
      · simp [Rule.object, Rule.unfit]

end Decides

theorem readText_decides : Decides readText .string :=
  .plain (fun v => by cases v <;> simp [Json.string?]) rfl

theorem readFlag_decides : Decides readFlag .boolean :=
  .plain (fun v => by cases v <;> simp [Json.bool?]) rfl

theorem number_decides : Decides (fun p v => demand .number p v.number?) .number :=
  .plain (fun v => by cases v <;> simp [Json.number?]) rfl

theorem natural_decides : Decides (fun p v => demand .natural p v.natural?) .unsigned := by
  refine .plain (fun v => ?_) rfl
  cases v with
  | integer i =>
      cases i with
      | ofNat n => exact iff_of_true ⟨n, rfl⟩ ⟨n, rfl⟩
      | negSucc n => simp [Json.natural?]
  | _ => simp [Json.natural?]

theorem accepting_decides : Decides (fun _ v => .ok v) .anything :=
  fun _ v => .ok v

theorem readFragment_decides : Decides readFragment .nested := by
  intro p v
  cases v with
  | obj members =>
      refine (Settles.ok _).congr ?_ fun e => ?_
      · simp [Rule.nested]
      · simp [Rule.nested]
  | _ =>
      refine (Settles.error _).congr ?_ fun e => ?_
      · simp [Rule.nested]
      · simp [Rule.nested]

theorem readSchemas_decides : Decides readSchemas .schemas :=
  .list readFragment_decides rfl

theorem readSchemaOrSchemas_decides : Decides readSchemaOrSchemas .schemaOrSchemas := by
  intro p v
  cases v with
  | arr items =>
      refine (readElements_settles readFragment_decides p items 0).congr ?_ fun e => ?_
      · simp [Rule.schemaOrSchemas, Rule.orElse, Rule.list, Rule.nested]
      · simp [Rule.schemaOrSchemas, Rule.orElse, Rule.list, Rule.nested]
  | obj members =>
      refine (Settles.ok _).congr ?_ fun e => ?_
      · simp [Rule.schemaOrSchemas, Rule.orElse, Rule.nested]
      · simp [Rule.schemaOrSchemas, Rule.orElse, Rule.nested]
  | _ =>
      refine (Settles.error _).congr ?_ fun e => ?_
      · simp [Rule.schemaOrSchemas, Rule.orElse, Rule.list, Rule.nested]
      · simp [Rule.schemaOrSchemas, Rule.orElse, Rule.list, Rule.nested, Rule.unfit]
        rfl

theorem readEntries_decides {read : Pointer → Json → Except LoadError α} {rule : Rule}
    (h : Decides read rule) :
    Decides (fun p v => do readEntries read p (← demand .object p v.object?))
      (.object (fun _ => rule) (Rule.unfit "an object")) :=
  .object (readEntries_settles h) rfl

/-- Checking the members of an object and then making something of them. -/
theorem checked_decides {check : String → Pointer → Json → Except LoadError Unit}
    {member : String → Rule} (h : ∀ key, Decides (check key) (member key))
    (make : Pointer → List (String × Json) → α) :
    Decides (fun p v => do
        let members ← demand .object p v.object?
        checkMembers check p members
        return make p members)
      (.object member (Rule.unfit "an object")) :=
  .object (fun p members => (checkMembers_settles h p members).map fun _ => make p members) rfl

theorem checkDiscriminatorMember_decides (key : String) :
    Decides (checkDiscriminatorMember key) (.discriminatorMember key) := by
  intro p v
  by_cases hname : key = "propertyName"
  · subst hname
    exact readText_decides.ignoring p v
  by_cases hmapping : key = "mapping"
  · subst hmapping
    have hentries : Decides (fun p v => do
        (fun _ => ()) <$> readEntries readText p (← demand .object p v.object?))
        (.object (fun _ => .string) (Rule.unfit "an object")) :=
      .object (fun p members => (readEntries_settles readText_decides p members).map _) rfl
    exact hentries p v
  · have hrule : Rule.discriminatorMember key = .anything := by
      simp only [Rule.discriminatorMember]
    rw [hrule, checkDiscriminatorMember, if_neg hname, if_neg hmapping]
    exact .ok ()

theorem checkXmlMember_decides (key : String) :
    Decides (checkXmlMember key) (.xmlMember key) := by
  intro p v
  by_cases htext : key = "name" ∨ key = "namespace" ∨ key = "prefix"
  · rcases htext with rfl | rfl | rfl
    all_goals exact readText_decides.ignoring p v
  by_cases hflag : key = "attribute" ∨ key = "wrapped"
  · rcases hflag with rfl | rfl
    all_goals exact readFlag_decides.ignoring p v
  · have hrule : Rule.xmlMember key = .anything := by
      unfold Rule.xmlMember
      split <;> simp_all
    rw [hrule, checkXmlMember, if_neg htext, if_neg hflag]
    exact .ok ()

theorem checkExternalDocsMember_decides (key : String) :
    Decides (checkExternalDocsMember key) (.externalDocsMember key) := by
  intro p v
  by_cases htext : key = "description" ∨ key = "url"
  · rcases htext with rfl | rfl
    all_goals exact readText_decides.ignoring p v
  · have hrule : Rule.externalDocsMember key = .anything := by
      unfold Rule.externalDocsMember
      split <;> simp_all
    rw [hrule, checkExternalDocsMember, if_neg htext]
    exact .ok ()

theorem readDiscriminator_decides :
    Decides readDiscriminator (.object Rule.discriminatorMember (Rule.unfit "an object")) :=
  checked_decides checkDiscriminatorMember_decides _

theorem readXml_decides :
    Decides readXml (.object Rule.xmlMember (Rule.unfit "an object")) :=
  checked_decides checkXmlMember_decides _

theorem readExternalDocs_decides :
    Decides readExternalDocs (.object Rule.externalDocsMember (Rule.unfit "an object")) :=
  checked_decides checkExternalDocsMember_decides _

end Source

def Shape.rule : Shape → Source.Rule
  | .text => .string
  | .number => .number
  | .natural => .unsigned
  | .flag => .boolean
  | .names => .list .string "an array"
  | .values => .list .anything "an array"
  | .schemas => .schemas
  | .schemaOrSchemas => .schemaOrSchemas
  | .properties => .properties
  | .any => .anything
  | .discriminator => .object Source.Rule.discriminatorMember (Source.Rule.unfit "an object")
  | .xml => .object Source.Rule.xmlMember (Source.Rule.unfit "an object")
  | .externalDocs => .object Source.Rule.externalDocsMember (Source.Rule.unfit "an object")

namespace Source

/-- Reading a value of a shape, shape by shape. -/
theorem read_decides (shape : Shape) : Decides (fun p v => shape.read p v) shape.rule := by
  cases shape with
  | text => exact readText_decides
  | number => exact number_decides
  | natural => exact natural_decides
  | flag => exact readFlag_decides
  | names => exact .list readText_decides rfl
  | values => exact .list accepting_decides rfl
  | schemas => exact readSchemas_decides
  | schemaOrSchemas => exact readSchemaOrSchemas_decides
  | properties => exact readEntries_decides readFragment_decides
  | any => exact accepting_decides
  | discriminator => exact readDiscriminator_decides
  | xml => exact readXml_decides
  | externalDocs => exact readExternalDocs_decides

/-- The grammar has the rule for the shape of each keyword under its name. -/
theorem schemaMember_name (k : Keyword) : Rule.schemaMember k.name = k.shape.rule := by
  cases k <;> rfl

/-- The grammar demands nothing of other members. -/
theorem schemaMember_unknown {key : String} (h : Keyword.ofName? key = none) :
    Rule.schemaMember key = .anything := by
  unfold Rule.schemaMember
  split
  all_goals first | rfl | exact absurd h (by decide)

theorem checkSchemaMember_decides (key : String) :
    Decides (checkSchemaMember key) (.schemaMember key) := by
  intro p v
  unfold checkSchemaMember
  cases hkey : Keyword.ofName? key with
  | none =>
      rw [schemaMember_unknown hkey]
      exact .ok ()
  | some k =>
      obtain rfl := Keyword.name_of_ofName? hkey
      rw [schemaMember_name]
      exact (read_decides k.shape).ignoring p v

theorem load_decides : Decides load .schema := by
  intro p v
  cases v with
  | obj members =>
      refine ((checkMembers_settles checkSchemaMember_decides p members).map _).congr ?_ fun e => ?_
      · simp [Rule.schema, Rule.object]
      · simp [Rule.schema, Rule.object]
  | _ =>
      refine (Settles.error _).congr ?_ fun e => ?_
      · simp [Rule.schema, Rule.object]
      · simp [Rule.schema, Rule.object]

/-- The loader accepts a value if and only if it fits the grammar, and the error for one that does
not is its first fault. -/
theorem load_exact_grammar (p : Pointer) (v : Json) :
    ((∃ s, load p v = .ok s) ↔ Rule.schema.Fits v) ∧
      ∀ e, load p v = .error e ↔ Rule.schema.Fault p v e :=
  ⟨(load_decides p v).accepts, (load_decides p v).refuses⟩

example : load ⟨"/a"⟩ (.obj [("new", .null), ("items", .arr [.obj [], .null]), ("type", .null)]) =
    .error (.notAnObject ⟨"/a/items/1"⟩) := rfl

end Source
end ApiSchema
