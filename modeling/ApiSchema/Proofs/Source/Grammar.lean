import ApiSchema.Source.Loader

/-!
The grammar of schema objects, and that the loader keeps to it.

A rule says which JSON values fit at a place and which error reports the first fault of a value that
does not: in an array the first item, in an object the first member in document order, and within
those again the first fault. `Rule.schema` is the grammar of schema objects, key by key. The loader
accepts a value if and only if it fits, and otherwise its error is the first fault.
-/

namespace ApiSchema

namespace Source

variable {α β : Type}

/-- That an element of a list is at fault and all before it fit. The fault may depend on how many
these are. -/
def FirstFault (fits : α → Prop) (fault : Nat → α → LoadError → Prop) (xs : List α)
    (e : LoadError) : Prop :=
  ∃ before x after, xs = before ++ x :: after ∧ (∀ y ∈ before, fits y) ∧ fault before.length x e

theorem firstFault_nil (fits : α → Prop) (fault : Nat → α → LoadError → Prop) (e : LoadError) :
    ¬ FirstFault fits fault [] e := by
  rintro ⟨before, x, after, heq, _⟩
  simp at heq

/-- The first fault of a list is that of its head, or else that of its tail. -/
theorem firstFault_cons {fits : α → Prop} {fault : Nat → α → LoadError → Prop} {x : α}
    {xs : List α} {e : LoadError} :
    FirstFault fits fault (x :: xs) e ↔
      fault 0 x e ∨ fits x ∧ FirstFault fits (fun i => fault (i + 1)) xs e := by
  constructor
  · rintro ⟨before, y, after, heq, hfits, hfault⟩
    cases before with
    | nil =>
        obtain ⟨rfl, rfl⟩ := List.cons.inj heq
        exact Or.inl hfault
    | cons z before =>
        obtain ⟨rfl, rfl⟩ := List.cons.inj heq
        obtain ⟨hhead, htail⟩ := List.forall_mem_cons.mp hfits
        exact Or.inr ⟨hhead, before, y, after, rfl, htail, hfault⟩
  · rintro (hfault | ⟨hhead, before, y, after, rfl, htail, hfault⟩)
    · exact ⟨[], x, xs, rfl, nofun, hfault⟩
    · exact ⟨x :: before, y, after, rfl, List.forall_mem_cons.mpr ⟨hhead, htail⟩, hfault⟩

/-- What a grammar says of the values at a place: which ones fit, and which error reports the first
fault of one that does not. -/
structure Rule where
  Fits : Json → Prop
  Fault : Pointer → Json → LoadError → Prop

namespace Rule

/-- The error for a value that is not what is wanted. -/
def unfit (wanted : String) (p : Pointer) : LoadError :=
  .invalidField p (.ofMessage wanted)

def anything : Rule where
  Fits _ := True
  Fault _ _ _ := False

/-- A value without parts that passes a test. -/
def plain (test : Json → Prop) (wanted : String) : Rule where
  Fits := test
  Fault p v e := ¬ test v ∧ e = unfit wanted p

/-- An object, whatever its members are: a nested schema, which is not looked into. -/
def nested : Rule where
  Fits v := ∃ members, v = .obj members
  Fault p v e := (¬ ∃ members, v = .obj members) ∧ e = .notAnObject p

def list (item : Rule) (wanted : String) : Rule where
  Fits v := ∃ items, v = .arr items ∧ ∀ x ∈ items, item.Fits x
  Fault p v e := (¬ ∃ items, v = .arr items) ∧ e = unfit wanted p ∨
    ∃ items, v = .arr items ∧ FirstFault item.Fits (fun i => item.Fault (p.element i)) items e

def object (member : String → Rule) (refusal : Pointer → LoadError) : Rule where
  Fits v := ∃ members, v = .obj members ∧ ∀ m ∈ members, (member m.1).Fits m.2
  Fault p v e := (¬ ∃ members, v = .obj members) ∧ e = refusal p ∨
    ∃ members, v = .obj members ∧ FirstFault (fun m => (member m.1).Fits m.2)
      (fun _ m => (member m.1).Fault (p.child m.1) m.2) members e

/-- A value that fits one rule, or else another. -/
def orElse (first second : Rule) : Rule where
  Fits v := first.Fits v ∨ second.Fits v
  Fault p v e := ¬ first.Fits v ∧ second.Fault p v e

def string : Rule :=
  plain (fun v => ∃ s, v = .str s) "a string"

def number : Rule :=
  plain (fun v => (∃ i, v = .integer i) ∨ ∃ x, v = .real x) "a number"

def unsigned : Rule :=
  plain (fun v => ∃ n : Nat, v = .integer n) "a non-negative integer"

def boolean : Rule :=
  plain (fun v => ∃ b, v = .bool b) "a boolean"

def schemas : Rule :=
  list nested "an array of schemas"

def schemaOrSchemas : Rule :=
  orElse nested (list nested "a schema or an array of schemas")

def properties : Rule :=
  object (fun _ => nested) (unfit "an object")

def discriminatorMember : String → Rule
  | "propertyName" => string
  | "mapping" => object (fun _ => string) (unfit "an object")
  | _ => anything

def xmlMember : String → Rule
  | "name" | "namespace" | "prefix" => string
  | "attribute" | "wrapped" => boolean
  | _ => anything

def externalDocsMember : String → Rule
  | "description" | "url" => string
  | _ => anything

def schemaMember : String → Rule
  | "title" | "pattern" | "format" | "type" | "description" => string
  | "multipleOf" | "maximum" | "minimum" => number
  | "maxLength" | "minLength" | "maxItems" | "minItems" | "maxProperties" | "minProperties" =>
    unsigned
  | "exclusiveMaximum" | "exclusiveMinimum" | "uniqueItems" | "nullable" | "readOnly" | "writeOnly"
  | "deprecated" => boolean
  | "required" => list string "an array"
  | "enum" => list anything "an array"
  | "allOf" | "oneOf" | "anyOf" => schemas
  | "not" | "items" => schemaOrSchemas
  | "properties" => properties
  | "discriminator" => object discriminatorMember (unfit "an object")
  | "xml" => object xmlMember (unfit "an object")
  | "externalDocs" => object externalDocsMember (unfit "an object")
  | _ => anything

/-- The grammar of schema objects. -/
def schema : Rule :=
  object schemaMember .notAnObject

end Rule

/-- A computation that succeeds if and only if a condition holds, and whose errors are the
faults. -/
structure Settles (x : Except LoadError α) (fits : Prop) (fault : LoadError → Prop) : Prop where
  accepts : (∃ a, x = .ok a) ↔ fits
  refuses : ∀ e, x = .error e ↔ fault e

namespace Settles

variable {x : Except LoadError α} {fits fits' : Prop} {fault fault' : LoadError → Prop}

theorem ok (a : α) : Settles (.ok a : Except LoadError α) True fun _ => False :=
  ⟨⟨fun _ => trivial, fun _ => ⟨a, rfl⟩⟩, fun _ => ⟨nofun, False.elim⟩⟩

theorem error (e : LoadError) : Settles (.error e : Except LoadError α) False fun e' => e' = e :=
  ⟨⟨nofun, False.elim⟩, fun _ => ⟨fun h => (Except.error.inj h).symm, fun h => h ▸ rfl⟩⟩

theorem congr (h : Settles x fits fault) (hfits : fits ↔ fits')
    (hfault : ∀ e, fault e ↔ fault' e) : Settles x fits' fault' :=
  ⟨h.accepts.trans hfits, fun e => (h.refuses e).trans (hfault e)⟩

/-- One computation after another: the faults of the first come first. -/
theorem bind {f : α → Except LoadError β} (h : Settles x fits fault)
    (h' : ∀ a, x = .ok a → Settles (f a) fits' fault') :
    Settles (x >>= f) (fits ∧ fits') fun e => fault e ∨ fits ∧ fault' e := by
  cases hx : x with
  | error e =>
      have hunfit : ¬ fits := by
        rw [← h.accepts, hx]
        exact nofun
      refine ⟨⟨nofun, fun hfits => absurd hfits.1 hunfit⟩, fun e' => ?_⟩
      rw [or_iff_left fun hfits => hunfit hfits.1, ← h.refuses e', hx]
      exact ⟨fun heq => by cases heq; rfl, fun heq => by cases heq; rfl⟩
  | ok a =>
      have hfits : fits := h.accepts.mp ⟨a, hx⟩
      have hnone : ∀ e, ¬ fault e := by
        intro e
        rw [← h.refuses e, hx]
        exact nofun
      have hnext := h' a hx
      refine ⟨?_, fun e => ?_⟩
      · rw [and_iff_right hfits]
        exact hnext.accepts
      · rw [or_iff_right (hnone e), and_iff_right hfits]
        exact hnext.refuses e

/-- Going through a list element by element settles what holds of all of them. -/
theorem cons {γ : Type} {test : γ → Prop} {faults : Nat → γ → LoadError → Prop} {c : γ}
    {rest : List γ} {f : α → Except LoadError β} (head : Settles x (test c) (faults 0 c))
    (tail : ∀ a, Settles (f a) (∀ y ∈ rest, test y)
      (FirstFault test (fun i => faults (i + 1)) rest)) :
    Settles (x >>= f) (∀ y ∈ c :: rest, test y) (FirstFault test faults (c :: rest)) :=
  (head.bind fun a _ => tail a).congr List.forall_mem_cons.symm fun _ => firstFault_cons.symm

theorem nil {γ : Type} (test : γ → Prop) (faults : Nat → γ → LoadError → Prop) (a : α) :
    Settles (.ok a : Except LoadError α) (∀ y ∈ [], test y) (FirstFault test faults []) :=
  (ok a).congr (by simp) fun e => iff_of_false id (firstFault_nil _ _ e)

/-- What is done with a result does not matter. -/
theorem map (h : Settles x fits fault) (f : α → β) : Settles (f <$> x) fits fault := by
  cases x with
  | error e => exact ⟨⟨nofun, fun hfits => nomatch h.accepts.mpr hfits⟩, fun e' => by
      rw [← h.refuses e']
      exact ⟨fun heq => by cases heq; rfl, fun heq => by cases heq; rfl⟩⟩
  | ok a =>
      refine ⟨⟨fun _ => h.accepts.mp ⟨a, rfl⟩, fun _ => ⟨f a, rfl⟩⟩, fun e => ?_⟩
      rw [← h.refuses e]
      exact ⟨nofun, nofun⟩

end Settles

/-- A reader that keeps to a rule. -/
def Decides (read : Pointer → Json → Except LoadError α) (rule : Rule) : Prop :=
  ∀ p v, Settles (read p v) (rule.Fits v) (rule.Fault p v)

/-- A condition on the outermost kind of a value. -/
theorem demand_settles {get : Json → Option α} {test : Json → Prop} {v : Json}
    (htest : (∃ a, get v = some a) ↔ test v) (expected : Expectation) (p : Pointer) :
    Settles (demand expected p (get v)) (test v)
      fun e => ¬ test v ∧ e = .invalidField p expected := by
  cases hget : get v with
  | some a =>
      have hyes : test v := htest.mp ⟨a, hget⟩
      exact (Settles.ok a).congr (iff_of_true trivial hyes) fun e =>
        ⟨False.elim, fun hfault => hfault.1 hyes⟩
  | none =>
      have hno : ¬ test v := by
        rw [← htest, hget]
        exact nofun
      exact (Settles.error _).congr (iff_of_false id hno) fun e => (and_iff_right hno).symm

/-- Reading array items one by one. -/
theorem readElements_settles {read : Pointer → Json → Except LoadError α} {rule : Rule}
    (h : Decides read rule) (p : Pointer) (items : List Json) (index : Nat) :
    Settles (readElements read p index items) (∀ x ∈ items, rule.Fits x)
      (FirstFault rule.Fits (fun i => rule.Fault (p.element (index + i))) items) := by
  induction items generalizing index with
  | nil => exact Settles.nil _ _ _
  | cons item rest ih =>
      have hshift : ∀ i, index + 1 + i = index + (i + 1) := by
        intro i
        omega
      refine Settles.cons (h (p.element index) item) fun value => ?_
      simpa only [hshift, bind_pure_comp] using (ih (index + 1)).map _

/-- Reading object members one by one. -/
theorem readEntries_settles {read : Pointer → Json → Except LoadError α} {rule : Rule}
    (h : Decides read rule) (p : Pointer) (members : List (String × Json)) :
    Settles (readEntries read p members) (∀ m ∈ members, rule.Fits m.2)
      (FirstFault (fun m => rule.Fits m.2) (fun _ m => rule.Fault (p.child m.1) m.2) members) := by
  induction members with
  | nil => exact Settles.nil _ _ _
  | cons member rest ih =>
      refine Settles.cons (h (p.child member.1) member.2) fun value => ?_
      simpa only [bind_pure_comp] using ih.map _

/-- Checking object members one by one. -/
theorem checkMembers_settles {check : String → Pointer → Json → Except LoadError Unit}
    {member : String → Rule} (h : ∀ key, Decides (check key) (member key)) (p : Pointer)
    (members : List (String × Json)) :
    Settles (checkMembers check p members) (∀ m ∈ members, (member m.1).Fits m.2)
      (FirstFault (fun m => (member m.1).Fits m.2)
        (fun _ m => (member m.1).Fault (p.child m.1) m.2) members) := by
  induction members with
  | nil => exact Settles.nil _ _ _
  | cons m rest ih => exact Settles.cons (h m.1 (p.child m.1) m.2) fun _ => ih

end Source
end ApiSchema
