import ApiSchema.Proofs.Except
import ApiSchema.Proofs.OrderedMap
import ApiSchema.Source.Loader

/-!
What the loader makes of a value.

`Shape.Reads p w x` says that `x` is what a value `w` at `p` stands for: it holds nothing that is
not in `w` and leaves nothing out, lists and maps keep their order, and every part bears the place
it has below `p`. `Schema.Reads` says the same of a schema, field by field. Whatever the loader
accepts, it reads in this way.
-/

namespace ApiSchema
namespace Source

variable {α : Type}

/-- Each element bears the number it has in its list, which stands at `p`. -/
def Numbered (p : Pointer) (xs : List (Element α)) : Prop :=
  ∀ i e, xs[i]? = some e → e.origin = p.element i

/-- Each entry bears the place of its key in an object at `p`. -/
def Keyed (p : Pointer) (xs : List (Entry α)) : Prop :=
  ∀ e ∈ xs, e.keyAt = p.child e.key ∧ e.valueAt = p.child e.key

/-- A field holds what the member called `key` of an object at `p` stands for. It is there if and
only if the member is. -/
def Keeps (reads : Json → α → Prop) (p : Pointer) (members : OrderedMap Json) (key : String)
    (field : Option (Field α)) : Prop :=
  match OrderedMap.get? key members, field with
  | none, none => True
  | some w, some f =>
    f.keyAt = some (p.child key) ∧ f.valueAt = some (p.child key) ∧ reads w f.value
  | _, _ => False

/-- The extensions are the extension members, in order. -/
def Extends (p : Pointer) (members : OrderedMap Json) (xs : List (Entry Json)) : Prop :=
  xs.map (fun e => (e.key, e.value)) = members.filter (fun m => isExtensionKey m.1) ∧ Keyed p xs

def IsText (w : Json) (s : String) : Prop :=
  w = .str s

def IsFlag (w : Json) (b : Bool) : Prop :=
  w = .bool b

/-- A list of nested schemas is read from an array at `p`. -/
def IsFragments (p : Pointer) (w : Json) (xs : List (Element Fragment)) : Prop :=
  w = .arr (xs.map (·.value.value)) ∧ Numbered p xs ∧ ∀ e ∈ xs, e.value.origin = e.origin

/-- A mapping is read from the member of that name, and is empty without one. -/
def IsMapping (p : Pointer) (members : OrderedMap Json) (xs : List (Entry String)) : Prop :=
  match OrderedMap.get? "mapping" members with
  | none => xs = []
  | some w => w = .obj (xs.map fun e => (e.key, .str e.value)) ∧ Keyed (p.child "mapping") xs

/-- A discriminator is read from an object at `p`. -/
structure Discriminator.Reads (p : Pointer) (members : OrderedMap Json) (d : Discriminator) :
    Prop where
  propertyName : Keeps IsText p members "propertyName" d.propertyName
  mapping : IsMapping p members d.mapping

/-- Metadata for XML is read from an object at `p`. -/
structure Xml.Reads (p : Pointer) (members : OrderedMap Json) (x : Xml) : Prop where
  name : Keeps IsText p members "name" x.name
  uri : Keeps IsText p members "namespace" x.uri
  qualifier : Keeps IsText p members "prefix" x.qualifier
  asAttribute : Keeps IsFlag p members "attribute" x.asAttribute
  wrapped : Keeps IsFlag p members "wrapped" x.wrapped
  extensions : Extends p members x.extensions

/-- A reference to documentation is read from an object at `p`. -/
structure ExternalDocs.Reads (p : Pointer) (members : OrderedMap Json) (d : ExternalDocs) :
    Prop where
  description : Keeps IsText p members "description" d.description
  url : Keeps IsText p members "url" d.url
  extensions : Extends p members d.extensions

end Source

open Source in
/-- A value of a shape is read from a value at `p`. A lone nested schema stands at `p` itself. -/
def Shape.Reads (p : Pointer) (w : Json) : (shape : Shape) → shape.Value Fragment → Prop
  | .text => fun s => IsText w s
  | .number => fun x => w.number? = some x
  | .natural => fun n => w = .integer n
  | .flag => fun b => IsFlag w b
  | .names => fun xs => w = .arr (xs.map fun e => .str e.value) ∧ Numbered p xs
  | .values => fun xs => w = .arr (xs.map (·.value)) ∧ Numbered p xs
  | .schemas => fun xs => IsFragments p w xs
  | .schemaOrSchemas => fun xs =>
    IsFragments p w xs ∨ (∃ members, w = .obj members) ∧ xs = [⟨⟨p, w⟩, p⟩]
  | .properties => fun xs => w = .obj (xs.map fun e => (e.key, e.value.value)) ∧ Keyed p xs ∧
    ∀ e ∈ xs, e.value.origin = e.valueAt
  | .any => fun u => w = u
  | .discriminator => fun d => ∃ members, w = .obj members ∧ d.Reads p members
  | .xml => fun x => ∃ members, w = .obj members ∧ x.Reads p members
  | .externalDocs => fun d => ∃ members, w = .obj members ∧ d.Reads p members

namespace Source

/-- A schema is read from an object at `p`. -/
structure Schema.Reads (p : Pointer) (members : OrderedMap Json) (s : Schema Fragment) : Prop where
  fields : ∀ k, Keeps (k.shape.Reads (p.child k.name)) p members k.name (s.get k)
  extensions : Extends p members s.extensions

/-- A member that is kept is there together with its field, or neither is. -/
theorem Keeps.cases {reads : Json → α → Prop} {p : Pointer} {members : OrderedMap Json}
    {key : String} {field : Option (Field α)} (h : Keeps reads p members key field) :
    OrderedMap.get? key members = none ∧ field = none ∨
      ∃ w f, OrderedMap.get? key members = some w ∧ field = some f ∧
        f.keyAt = some (p.child key) ∧ f.valueAt = some (p.child key) ∧ reads w f.value := by
  unfold Keeps at h
  split at h
  next hmember => exact Or.inl ⟨hmember, rfl⟩
  next w f hmember => exact Or.inr ⟨w, f, hmember, rfl, h⟩
  next => exact h.elim

theorem demand_ok {expected : Expectation} {p : Pointer} {x : Option α} {a : α}
    (h : demand expected p x = .ok a) : x = some a := by
  cases x with
  | none => cases h
  | some b => exact congrArg some (Except.ok.inj h)

/-- Array items are read in order. `back` is the way back from what they are read as. -/
theorem readElements_ok {read : Pointer → Json → Except LoadError α} {back : α → Json}
    (hback : ∀ q w x, read q w = .ok x → w = back x) {p : Pointer} {index : Nat}
    {items : List Json} {xs : List (Element α)} (h : readElements read p index items = .ok xs) :
    items = xs.map (fun e => back e.value) ∧
      ∀ i e, xs[i]? = some e → e.origin = p.element (index + i) ∧
        read e.origin (back e.value) = .ok e.value := by
  induction items generalizing index xs with
  | nil =>
      cases h
      exact ⟨rfl, nofun⟩
  | cons item rest ih =>
      obtain ⟨value, hvalue, h⟩ := bind_ok h
      obtain ⟨elements, helements, h⟩ := bind_ok h
      cases h
      obtain ⟨hitems, hplaces⟩ := ih helements
      have hitem := hback _ _ _ hvalue
      refine ⟨by rw [List.map_cons, ← hitems, ← hitem], fun i e hi => ?_⟩
      cases i with
      | zero =>
          cases hi
          exact ⟨rfl, hitem ▸ hvalue⟩
      | succ i =>
          rw [← Nat.add_assoc, Nat.add_right_comm]
          exact hplaces i e hi

/-- Object members are read in order. -/
theorem readEntries_ok {read : Pointer → Json → Except LoadError α} {back : α → Json}
    (hback : ∀ q w x, read q w = .ok x → w = back x) {p : Pointer} {members : OrderedMap Json}
    {xs : List (Entry α)} (h : readEntries read p members = .ok xs) :
    members = xs.map (fun e => (e.key, back e.value)) ∧ Keyed p xs ∧
      ∀ e ∈ xs, read e.valueAt (back e.value) = .ok e.value := by
  induction members generalizing xs with
  | nil =>
      cases h
      exact ⟨rfl, nofun, nofun⟩
  | cons member rest ih =>
      obtain ⟨key, item⟩ := member
      obtain ⟨value, hvalue, h⟩ := bind_ok h
      obtain ⟨entries, hentries, h⟩ := bind_ok h
      cases h
      obtain ⟨hmembers, hkeyed, hread⟩ := ih hentries
      have hitem := hback _ _ _ hvalue
      refine ⟨by rw [List.map_cons, ← hmembers, ← hitem], ?_, ?_⟩
      · exact List.forall_mem_cons.mpr ⟨⟨rfl, rfl⟩, hkeyed⟩
      · exact List.forall_mem_cons.mpr ⟨hitem ▸ hvalue, hread⟩

theorem checkMembers_ok {check : String → Pointer → Json → Except LoadError Unit} {p : Pointer}
    {members : OrderedMap Json} (h : checkMembers check p members = .ok ()) :
    ∀ m ∈ members, check m.1 (p.child m.1) m.2 = .ok () := by
  induction members with
  | nil => exact nofun
  | cons member rest ih =>
      obtain ⟨_, hmember, hrest⟩ := bind_ok h
      exact List.forall_mem_cons.mpr ⟨hmember, ih hrest⟩

/-- A field that is read from a member keeps it, if the member can be read at all. -/
theorem memberField?_keeps {get : Json → Option α} {reads : Json → α → Prop} {p : Pointer}
    {members : OrderedMap Json} {key : String}
    (h : ∀ w, (key, w) ∈ members → ∃ x, get w = some x ∧ reads w x) :
    Keeps reads p members key (memberField? get p members key) := by
  unfold Keeps memberField?
  cases hmember : OrderedMap.get? key members with
  | none => trivial
  | some w =>
      obtain ⟨x, hget, hreads⟩ := h w (OrderedMap.mem_of_get? hmember)
      simp only [bind, Option.bind_some, hget]
      exact ⟨rfl, rfl, hreads⟩

theorem readExtensions_extends (p : Pointer) (members : OrderedMap Json) :
    Extends p members (readExtensions p members) := by
  refine ⟨?_, ?_⟩
  · simp [readExtensions, Function.comp_def]
  · intro e he
    obtain ⟨m, _, rfl⟩ := List.mem_map.mp he
    exact ⟨rfl, rfl⟩

theorem string?_eq_some {w : Json} {s : String} (h : w.string? = some s) : w = .str s := by
  cases w with
  | str s' => exact congrArg Json.str (Option.some.inj h)
  | _ => cases h

theorem bool?_eq_some {w : Json} {b : Bool} (h : w.bool? = some b) : w = .bool b := by
  cases w with
  | bool b' => exact congrArg Json.bool (Option.some.inj h)
  | _ => cases h

theorem array?_eq_some {w : Json} {items : List Json} (h : w.array? = some items) :
    w = .arr items := by
  cases w with
  | arr items' => exact congrArg Json.arr (Option.some.inj h)
  | _ => cases h

theorem object?_eq_some {w : Json} {members : OrderedMap Json} (h : w.object? = some members) :
    w = .obj members := by
  cases w with
  | obj members' => exact congrArg Json.obj (Option.some.inj h)
  | _ => cases h

theorem natural?_eq_some {w : Json} {n : Nat} (h : w.natural? = some n) : w = .integer n := by
  cases w with
  | integer i =>
      cases i with
      | ofNat m => exact congrArg (fun n : Nat => Json.integer n) (Option.some.inj h)
      | negSucc m => cases h
  | _ => cases h

theorem readText_ok {p : Pointer} {w : Json} {s : String} (h : readText p w = .ok s) :
    w = .str s :=
  string?_eq_some (demand_ok h)

theorem readFragment_ok {p : Pointer} {w : Json} {fragment : Fragment}
    (h : readFragment p w = .ok fragment) : fragment = ⟨p, w⟩ := by
  unfold readFragment at h
  split at h
  · exact (Except.ok.inj h).symm
  · cases h

/-- Reading nested schemas item by item. -/
theorem readFragments_ok {p : Pointer} {items : List Json} {xs : List (Element Fragment)}
    (h : readElements readFragment p 0 items = .ok xs) : IsFragments p (.arr items) xs := by
  have hback : ∀ q w x, readFragment q w = .ok x → w = x.value := by
    intro q w x hx
    rw [readFragment_ok hx]
  obtain ⟨hitems, hplaces⟩ := readElements_ok hback h
  refine ⟨congrArg Json.arr hitems, ?_, ?_⟩
  · intro i e hi
    simpa using (hplaces i e hi).1
  · intro e he
    obtain ⟨i, hi⟩ := List.mem_iff_getElem?.mp he
    rw [readFragment_ok (hplaces i e hi).2]

/-- A mapping that can be read is the member of that name. -/
theorem isMapping_of_check {p : Pointer} {members : OrderedMap Json}
    (hcheck : checkMembers checkDiscriminatorMember p members = .ok ()) :
    IsMapping p members (match memberField? (fun value => do
      (readEntries readText (p.child "mapping") (← value.object?)).toOption) p members "mapping" with
      | some field => field.value
      | none => []) := by
  unfold IsMapping memberField?
  cases hmember : OrderedMap.get? "mapping" members with
  | none => rfl
  | some w =>
      have hmapping := checkMembers_ok hcheck _ (OrderedMap.mem_of_get? hmember)
      obtain ⟨entries, hobject, hread⟩ := bind_ok hmapping
      obtain ⟨xs, hxs, _⟩ := bind_ok hread
      have hobject := demand_ok hobject
      obtain ⟨hentries, hkeyed, _⟩ := readEntries_ok (fun _ _ _ => readText_ok) hxs
      simp only [bind, Option.bind_some, hobject, hxs, Except.toOption]
      exact ⟨(object?_eq_some hobject).trans (congrArg Json.obj hentries), hkeyed⟩

section Checked

variable {check : String → Pointer → Json → Except LoadError Unit} {p : Pointer}
  {members : OrderedMap Json} {key : String} (hcheck : checkMembers check p members = .ok ())
include hcheck

/-- A field keeps its member if checking the members has come to demanding it. -/
theorem checked_keeps {get : Json → Option α} {reads : Json → α → Prop} {expected : Expectation}
    (hreads : ∀ w x, get w = some x → reads w x)
    (hkey : ∀ q w, check key q w = do let _ ← demand expected q (get w)) :
    Keeps reads p members key (memberField? get p members key) := by
  refine memberField?_keeps fun w hw => ?_
  have hmember := checkMembers_ok hcheck _ hw
  rw [hkey] at hmember
  obtain ⟨x, hx, _⟩ := bind_ok hmember
  exact ⟨x, demand_ok hx, hreads w x (demand_ok hx)⟩

theorem text_keeps (hkey : ∀ q w, check key q w = do let _ ← readText q w) :
    Keeps IsText p members key (memberField? Json.string? p members key) :=
  checked_keeps hcheck (fun _ _ => string?_eq_some) hkey

theorem flag_keeps (hkey : ∀ q w, check key q w = do let _ ← readFlag q w) :
    Keeps IsFlag p members key (memberField? Json.bool? p members key) :=
  checked_keeps hcheck (fun _ _ => bool?_eq_some) hkey

end Checked

theorem readDiscriminator_ok {p : Pointer} {w : Json} {d : Discriminator}
    (h : readDiscriminator p w = .ok d) : ∃ members, w = .obj members ∧ d.Reads p members := by
  obtain ⟨members, hobject, h⟩ := bind_ok h
  obtain ⟨_, hcheck, h⟩ := bind_ok h
  cases h
  exact ⟨members, object?_eq_some (demand_ok hobject), text_keeps hcheck fun _ _ => rfl,
    isMapping_of_check hcheck⟩

theorem readXml_ok {p : Pointer} {w : Json} {x : Xml} (h : readXml p w = .ok x) :
    ∃ members, w = .obj members ∧ x.Reads p members := by
  obtain ⟨members, hobject, h⟩ := bind_ok h
  obtain ⟨_, hcheck, h⟩ := bind_ok h
  cases h
  exact ⟨members, object?_eq_some (demand_ok hobject), text_keeps hcheck fun _ _ => rfl,
    text_keeps hcheck fun _ _ => rfl, text_keeps hcheck fun _ _ => rfl,
    flag_keeps hcheck fun _ _ => rfl, flag_keeps hcheck fun _ _ => rfl,
    readExtensions_extends p members⟩

theorem readExternalDocs_ok {p : Pointer} {w : Json} {d : ExternalDocs}
    (h : readExternalDocs p w = .ok d) : ∃ members, w = .obj members ∧ d.Reads p members := by
  obtain ⟨members, hobject, h⟩ := bind_ok h
  obtain ⟨_, hcheck, h⟩ := bind_ok h
  cases h
  exact ⟨members, object?_eq_some (demand_ok hobject), text_keeps hcheck fun _ _ => rfl,
    text_keeps hcheck fun _ _ => rfl, readExtensions_extends p members⟩

/-- What is read as a value of a shape is what it stands for, shape by shape. -/
theorem read_reads {p : Pointer} {w : Json} {shape : Shape} {x : shape.Value Fragment}
    (h : shape.read p w = .ok x) : shape.Reads p w x := by
  cases shape with
  | text => exact readText_ok h
  | number => exact demand_ok h
  | natural => exact natural?_eq_some (demand_ok h)
  | flag => exact bool?_eq_some (demand_ok h)
  | names =>
      obtain ⟨items, harray, h⟩ := bind_ok h
      obtain ⟨hitems, hplaces⟩ := readElements_ok (fun _ _ _ => readText_ok) h
      refine ⟨(array?_eq_some (demand_ok harray)).trans (congrArg Json.arr hitems), ?_⟩
      intro i e hi
      simpa using (hplaces i e hi).1
  | values =>
      obtain ⟨items, harray, h⟩ := bind_ok h
      obtain ⟨hitems, hplaces⟩ := readElements_ok (fun _ _ _ => Except.ok.inj) h
      refine ⟨(array?_eq_some (demand_ok harray)).trans (congrArg Json.arr hitems), ?_⟩
      intro i e hi
      simpa using (hplaces i e hi).1
  | schemas =>
      obtain ⟨items, harray, h⟩ := bind_ok h
      rw [array?_eq_some (demand_ok harray)]
      exact readFragments_ok h
  | schemaOrSchemas =>
      cases w with
      | arr items => exact Or.inl (readFragments_ok h)
      | obj members => exact Or.inr ⟨⟨members, rfl⟩, (Except.ok.inj h).symm⟩
      | _ => cases h
  | properties =>
      obtain ⟨members, hobject, h⟩ := bind_ok h
      have hback : ∀ q w x, readFragment q w = .ok x → w = x.value := by
        intro q w x hx
        rw [readFragment_ok hx]
      obtain ⟨hmembers, hkeyed, hread⟩ := readEntries_ok hback h
      refine ⟨(object?_eq_some (demand_ok hobject)).trans (congrArg Json.obj hmembers), hkeyed, ?_⟩
      intro e he
      rw [readFragment_ok (hread e he)]
  | any => exact Except.ok.inj h
  | discriminator => exact readDiscriminator_ok h
  | xml => exact readXml_ok h
  | externalDocs => exact readExternalDocs_ok h

/-- What is loaded is what the document stands for. -/
theorem load_reads {p : Pointer} {v : Json} {s : Schema Fragment} (h : load p v = .ok s) :
    ∃ members, v = .obj members ∧ s.Reads p members := by
  cases v with
  | obj members =>
      obtain ⟨_, hcheck, h⟩ := bind_ok h
      cases h
      refine ⟨members, rfl, fun k => ?_, readExtensions_extends p members⟩
      rw [Schema.get_ofFields]
      refine memberField?_keeps fun w hw => ?_
      have hmember := checkMembers_ok hcheck _ hw
      simp only [checkSchemaMember, Keyword.ofName?_name] at hmember
      obtain ⟨x, hx, _⟩ := bind_ok hmember
      exact ⟨x, by rw [hx]; rfl, read_reads hx⟩
  | _ => cases h

end Source
end ApiSchema
