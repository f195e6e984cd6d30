import ApiSchema.Proofs.View.Picture

/-!
The view is the document.

A schema object is loaded field by field, stored, and copied field by field into a view, while the
handles in it are made by a pool of workers. `View.Presents` says of each value in a view which
member of the object it comes from, in terms of the object alone. It holds of every view of a
document.
-/

namespace ApiSchema

open Source (Schema Fragment Keeps load)

variable {store : Store} {p : Pointer} {members : OrderedMap Json} {id : SchemaId}
  {s : Schema Fragment} {key : String} {w? : Option Json}

namespace OrderedMap

/-- Entries with distinct keys are collected as they are. -/
theorem ofEntries_of_nodup {α : Type} {entries : OrderedMap α} (hkeys : (keys entries).Nodup) :
    ofEntries entries = entries := by
  have hcollect : ∀ (rest front : OrderedMap α), (keys (front ++ rest)).Nodup →
      rest.foldl (fun map entry => insert entry.1 entry.2 map) front = front ++ rest := by
    intro rest
    induction rest with
    | nil => exact fun front _ => (List.append_nil front).symm
    | cons entry rest ih =>
        intro front hkeys
        have hsplit : front ++ entry :: rest = (front ++ [entry]) ++ rest := by simp
        have hkey : entry.1 ∉ keys front := by
          intro hmem
          rw [keys, List.map_append] at hkeys
          exact (List.nodup_append.mp hkeys).2.2 _ hmem _ List.mem_cons_self rfl
        rw [List.foldl_cons, insert_of_not_mem hkey, hsplit]
        exact ih _ (hsplit ▸ hkeys)
  exact hcollect entries [] hkeys

end OrderedMap

/-- A handle stands for the value at a place: that is what is built when it is opened. -/
structure Handle.StandsFor (store : Store) (handle : Handle) (keyAt : Option Pointer) (p : Pointer)
    (w : Json) : Prop where
  fragment : store.fragment? handle.child = some ⟨p, w⟩
  keyAt : handle.keyAt = keyAt
  valueAt : handle.valueAt = some p

namespace View

/-- A text is that of a member, and absent without one. -/
def TextOf (w? : Option Json) (x : Option String) : Prop :=
  w? = x.map .str

/-- A number is that of a member, as a binary64 number. -/
def NumberOf (w? : Option Json) (x : Option Binary64) : Prop :=
  w?.map Json.number? = x.map some

def NaturalOf (w? : Option Json) (x : Option Nat) : Prop :=
  w? = x.map fun n : Nat => .integer n

def ValueOf (w? x : Option Json) : Prop :=
  w? = x

/-- A flag is true if and only if its member is. -/
def FlagOf (w? : Option Json) (b : Bool) : Prop :=
  b = true ↔ w? = some (.bool true)

/-- Strings are the items of a member in order, none without it. -/
def NamesOf (w? : Option Json) (xs : List String) : Prop :=
  w?.getD (.arr []) = .arr (xs.map .str)

/-- There is a label for each item of a member, in order: a string as it is, or else the compact
text. -/
def LabelsOf (w? : Option Json) (xs : List String) : Prop :=
  ∃ items, w?.getD (.arr []) = .arr items ∧ xs = items.map Json.label

def ExtensionsOf (members : OrderedMap Json) (xs : OrderedMap Json) : Prop :=
  xs = members.filter fun m => isExtensionKey m.1

/-- Handles of a list stand for its items one by one, or for a lone object where that is allowed. -/
inductive HandlesOf (store : Store) (p : Pointer) (allowed : Bool) :
    Option Json → List Handle → Prop
  | absent : HandlesOf store p allowed none []
  | list {items : List Json} {handles : List Handle} (length : handles.length = items.length)
      (stand : ∀ i w, items[i]? = some w → ∃ handle : Handle, handles[i]? = some handle ∧
        handle.StandsFor store none (p.element i) w) :
      HandlesOf store p allowed (some (.arr items)) handles
  | lone {members : OrderedMap Json} {handle : Handle} (lone : allowed = true)
      (stands : handle.StandsFor store none p (.obj members)) :
      HandlesOf store p allowed (some (.obj members)) [handle]

/-- Handles of properties stand under the keys of the object for its values. -/
inductive PropertiesOf (store : Store) (p : Pointer) : Option Json → OrderedMap Handle → Prop
  | absent : PropertiesOf store p none []
  | object {members : OrderedMap Json} {handles : OrderedMap Handle}
      (keys : OrderedMap.keys handles = OrderedMap.keys members)
      (distinct : (OrderedMap.keys handles).Nodup)
      (stand : ∀ key w, OrderedMap.get? key members = some w → ∃ handle : Handle,
        OrderedMap.get? key handles = some handle ∧
          handle.StandsFor store (some (p.child key)) (p.child key) w) :
      PropertiesOf store p (some (.obj members)) handles

/-- A mapping has the strings of its member under the same keys, and is empty without one. -/
def MappingOf (w? : Option Json) (xs : OrderedMap String) : Prop :=
  w?.getD (.obj []) = .obj (xs.map fun e => (e.1, .str e.2))

/-- A discriminator is there if and only if its member is, and has what that has. -/
inductive DiscriminatorOf : Option Json → Option Discriminator → Prop
  | absent : DiscriminatorOf none none
  | object {members : OrderedMap Json} {d : Discriminator}
      (propertyName : TextOf (OrderedMap.get? "propertyName" members) d.propertyName)
      (mapping : MappingOf (OrderedMap.get? "mapping" members) d.mapping) :
      DiscriminatorOf (some (.obj members)) (some d)

inductive XmlOf : Option Json → Option Xml → Prop
  | absent : XmlOf none none
  | object {members : OrderedMap Json} {x : Xml}
      (name : TextOf (OrderedMap.get? "name" members) x.name)
      (uri : TextOf (OrderedMap.get? "namespace" members) x.uri)
      (qualifier : TextOf (OrderedMap.get? "prefix" members) x.qualifier)
      (asAttribute : FlagOf (OrderedMap.get? "attribute" members) x.asAttribute)
      (wrapped : FlagOf (OrderedMap.get? "wrapped" members) x.wrapped)
      (extensions : ExtensionsOf members x.extensions) :
      XmlOf (some (.obj members)) (some x)

inductive ExternalDocsOf : Option Json → Option ExternalDocs → Prop
  | absent : ExternalDocsOf none none
  | object {members : OrderedMap Json} {d : ExternalDocs}
      (description : TextOf (OrderedMap.get? "description" members) d.description)
      (url : TextOf (OrderedMap.get? "url" members) d.url)
      (extensions : ExtensionsOf members d.extensions) :
      ExternalDocsOf (some (.obj members)) (some d)

/-- A view has the values of the members of an object at `p`, each under its own name. -/
structure Presents (store : Store) (p : Pointer) (members : OrderedMap Json) (view : View) :
    Prop where
  title : TextOf (OrderedMap.get? "title" members) view.title
  multipleOf : NumberOf (OrderedMap.get? "multipleOf" members) view.multipleOf
  maximum : NumberOf (OrderedMap.get? "maximum" members) view.maximum
  exclusiveMaximum : FlagOf (OrderedMap.get? "exclusiveMaximum" members) view.exclusiveMaximum
  minimum : NumberOf (OrderedMap.get? "minimum" members) view.minimum
  exclusiveMinimum : FlagOf (OrderedMap.get? "exclusiveMinimum" members) view.exclusiveMinimum
  maxLength : NaturalOf (OrderedMap.get? "maxLength" members) view.maxLength
  minLength : NaturalOf (OrderedMap.get? "minLength" members) view.minLength
  pattern : TextOf (OrderedMap.get? "pattern" members) view.pattern
  format : TextOf (OrderedMap.get? "format" members) view.format
  maxItems : NaturalOf (OrderedMap.get? "maxItems" members) view.maxItems
  minItems : NaturalOf (OrderedMap.get? "minItems" members) view.minItems
  uniqueItems : FlagOf (OrderedMap.get? "uniqueItems" members) view.uniqueItems
  maxProperties : NaturalOf (OrderedMap.get? "maxProperties" members) view.maxProperties
  minProperties : NaturalOf (OrderedMap.get? "minProperties" members) view.minProperties
  required : NamesOf (OrderedMap.get? "required" members) view.required
  enumValues : LabelsOf (OrderedMap.get? "enum" members) view.enumValues
  typeName : TextOf (OrderedMap.get? "type" members) view.typeName
  allOf : HandlesOf store (p.child "allOf") false (OrderedMap.get? "allOf" members) view.allOf
  oneOf : HandlesOf store (p.child "oneOf") false (OrderedMap.get? "oneOf" members) view.oneOf
  anyOf : HandlesOf store (p.child "anyOf") false (OrderedMap.get? "anyOf" members) view.anyOf
  not : HandlesOf store (p.child "not") true (OrderedMap.get? "not" members) view.not
  items : HandlesOf store (p.child "items") true (OrderedMap.get? "items" members) view.items
  properties : PropertiesOf store (p.child "properties") (OrderedMap.get? "properties" members)
    view.properties
  additionalProperties : ValueOf (OrderedMap.get? "additionalProperties" members)
    view.additionalProperties
  description : TextOf (OrderedMap.get? "description" members) view.description
  defaultValue : ValueOf (OrderedMap.get? "default" members) view.defaultValue
  nullable : FlagOf (OrderedMap.get? "nullable" members) view.nullable
  discriminator : DiscriminatorOf (OrderedMap.get? "discriminator" members) view.discriminator
  readOnly : FlagOf (OrderedMap.get? "readOnly" members) view.readOnly
  writeOnly : FlagOf (OrderedMap.get? "writeOnly" members) view.writeOnly
  xml : XmlOf (OrderedMap.get? "xml" members) view.xml
  externalDocs : ExternalDocsOf (OrderedMap.get? "externalDocs" members) view.externalDocs
  sample : ValueOf (OrderedMap.get? "example" members) view.sample
  deprecated : FlagOf (OrderedMap.get? "deprecated" members) view.deprecated
  extensions : ExtensionsOf members view.extensions

/-! ### Scalars, shape by shape -/

theorem textOf_of_keeps {field : Option (Source.Field String)}
    (h : Keeps Source.IsText p members key field) :
    TextOf (OrderedMap.get? key members) (valueOf field) := by
  rcases h.cases with ⟨hmember, rfl⟩ | ⟨w, f, hmember, rfl, _, _, rfl⟩
  · exact hmember
  · exact hmember

theorem flagOf_of_keeps {field : Option (Source.Field Bool)}
    (h : Keeps Source.IsFlag p members key field) :
    FlagOf (OrderedMap.get? key members) (flagOf field) := by
  rcases h.cases with ⟨hmember, rfl⟩ | ⟨w, f, hmember, rfl, _, _, rfl⟩
  · rw [hmember]
    exact ⟨nofun, nofun⟩
  · rw [hmember, FlagOf, Option.some.injEq, Json.bool.injEq]
    exact Iff.rfl

theorem namesOf_elements (xs : List (Source.Element String)) :
    NamesOf (some (.arr (xs.map fun e => .str e.value))) (xs.map fun e => e.value) := by
  rw [NamesOf, List.map_map]
  rfl

theorem labelsOf_elements (xs : List (Source.Element Json)) :
    LabelsOf (some (.arr (xs.map (·.value)))) (xs.map fun e => e.value.label) := by
  refine ⟨_, rfl, ?_⟩
  rw [List.map_map]
  rfl

theorem mapOf_eq {α : Type} {entries : List (Source.Entry α)}
    (hkeys : (entries.map (·.key)).Nodup) :
    mapOf entries = entries.map fun e => (e.key, e.value) := by
  refine OrderedMap.ofEntries_of_nodup ?_
  rw [OrderedMap.keys, List.map_map]
  exact hkeys

theorem extensionsOf_of_extends {xs : List (Source.Entry Json)}
    (hmembers : (OrderedMap.keys members).Nodup) (h : Source.Extends p members xs) :
    ExtensionsOf members (mapOf xs) := by
  have hkeys : (xs.map (·.key)).Nodup := by
    have heq := congrArg (List.map Prod.fst) h.1
    rw [List.map_map] at heq
    exact heq ▸ hmembers.sublist (List.filter_sublist.map Prod.fst)
  rw [mapOf_eq hkeys]
  exact h.1

theorem discriminatorOf_of_reads {q : Pointer} {d : Source.Discriminator}
    (hdistinct : (Json.obj members).Distinct) (h : d.Reads q members) :
    DiscriminatorOf (some (.obj members)) (some (.ofSource d)) := by
  refine .object (textOf_of_keeps h.propertyName) ?_
  have hmapping := h.mapping
  unfold Source.IsMapping at hmapping
  unfold MappingOf
  split at hmapping
  next hmember =>
    have hnone : (Discriminator.ofSource d).mapping = [] := by
      rw [Discriminator.ofSource, hmapping]
      rfl
    rw [hmember, hnone]
    rfl
  next w hmember =>
    have hw := Json.member?_distinct hdistinct hmember
    rw [hmapping.1] at hw
    cases hw with
    | obj keys _ =>
        rw [OrderedMap.keys, List.map_map] at keys
        have hmap : (Discriminator.ofSource d).mapping = d.mapping.map fun e => (e.key, e.value) :=
          mapOf_eq keys
        rw [hmember, hmap, List.map_map]
        exact hmapping.1

theorem xmlOf_of_reads {q : Pointer} {x : Source.Xml} (hkeys : (OrderedMap.keys members).Nodup)
    (h : x.Reads q members) : XmlOf (some (.obj members)) (some (.ofSource x)) :=
  .object (textOf_of_keeps h.name) (textOf_of_keeps h.uri) (textOf_of_keeps h.qualifier)
    (flagOf_of_keeps h.asAttribute) (flagOf_of_keeps h.wrapped)
    (extensionsOf_of_extends hkeys h.extensions)

theorem externalDocsOf_of_reads {q : Pointer} {d : Source.ExternalDocs}
    (hkeys : (OrderedMap.keys members).Nodup) (h : d.Reads q members) :
    ExternalDocsOf (some (.obj members)) (some (.ofSource d)) :=
  .object (textOf_of_keeps h.description) (textOf_of_keeps h.url)
    (extensionsOf_of_extends hkeys h.extensions)

end View

open View in
/-- How the value of a shape comes from a member. What handles come from is said elsewhere. -/
def Shape.Comes (w? : Option Json) : (shape : Shape) → shape.Shown → Prop
  | .text => TextOf w?
  | .number => NumberOf w?
  | .natural => NaturalOf w?
  | .flag => FlagOf w?
  | .names => NamesOf w?
  | .values => LabelsOf w?
  | .schemas | .schemaOrSchemas | .properties => fun _ => True
  | .any => ValueOf w?
  | .discriminator => DiscriminatorOf w?
  | .xml => XmlOf w?
  | .externalDocs => ExternalDocsOf w?

namespace View

/-- The value of a field that keeps a member comes from the member. -/
theorem shown_comes {shape : Shape} {q : Pointer}
    {field : Option (Source.Field (shape.Value Fragment))}
    (hdistinct : (Json.obj members).Distinct) (h : Keeps (shape.Reads q) p members key field) :
    shape.Comes (OrderedMap.get? key members) (shape.shown field) := by
  rcases h.cases with ⟨hmember, rfl⟩ | ⟨w, f, hmember, rfl, _, _, hreads⟩
  · rw [hmember]
    cases shape with
    | text => exact rfl
    | number => exact rfl
    | natural => exact rfl
    | flag => exact ⟨nofun, nofun⟩
    | names => exact rfl
    | values => exact ⟨[], rfl, rfl⟩
    | schemas => trivial
    | schemaOrSchemas => trivial
    | properties => trivial
    | any => exact rfl
    | discriminator => exact .absent
    | xml => exact .absent
    | externalDocs => exact .absent
  · have hw : w.Distinct := Json.member?_distinct hdistinct hmember
    rw [hmember]
    cases shape with
    | text => exact congrArg some hreads
    | number => exact congrArg some hreads
    | natural => exact congrArg some hreads
    | flag =>
        cases hreads
        show _ ↔ some (Json.bool f.value) = some (.bool true)
        rw [Option.some.injEq, Json.bool.injEq]
        exact Iff.rfl
    | names =>
        rw [hreads.1]
        exact namesOf_elements f.value
    | values =>
        rw [hreads.1]
        exact labelsOf_elements f.value
    | schemas => trivial
    | schemaOrSchemas => trivial
    | properties => trivial
    | any => exact congrArg some hreads
    | discriminator =>
        obtain ⟨members, rfl, hreads⟩ := hreads
        exact discriminatorOf_of_reads hw hreads
    | xml =>
        obtain ⟨members, rfl, hreads⟩ := hreads
        cases hw with
        | obj keys _ => exact xmlOf_of_reads keys hreads
    | externalDocs =>
        obtain ⟨members, rfl, hreads⟩ := hreads
        cases hw with
        | obj keys _ => exact externalDocsOf_of_reads keys hreads

/-- Handles left out, a view shows the same of a schema whatever stands for its nested schemas. -/
theorem shown_map {C D : Type} (f : C → D) (s : Schema C) (k : Keyword) :
    k.shape.shown ((s.map f).get k) = k.shape.shown (s.get k) := by
  cases k <;> rfl

theorem scalars_comes (hdistinct : (Json.obj members).Distinct)
    (hreads : s.Reads p members) (hshows : store.Shows id s) (k : Keyword) :
    k.shape.Comes (OrderedMap.get? k.name members)
      ((scalars id (store.schema id)).get k) := by
  obtain ⟨t, ht, hmap⟩ := hshows
  have hshown : k.shape.shown (t.get k) = k.shape.shown (s.get k) := by
    rw [← shown_map store.fragment?, hmap, shown_map]
  rw [Store.schema_of_schema? ht, scalars, get_ofValues, hshown]
  exact shown_comes hdistinct (hreads.fields k)

theorem extensions_scalars (hdistinct : (Json.obj members).Distinct)
    (hreads : s.Reads p members) (hshows : store.Shows id s) :
    ExtensionsOf members (scalars id (store.schema id)).extensions := by
  obtain ⟨t, ht, hmap⟩ := hshows
  have hsame : t.extensions = s.extensions := congrArg (·.extensions) hmap
  rw [Store.schema_of_schema? ht]
  show ExtensionsOf members (mapOf t.extensions)
  rw [hsame]
  cases hdistinct with
  | obj keys _ => exact extensionsOf_of_extends keys hreads.extensions

/-! ### Handles -/

/-- The handles of a list stand for what is found in the object. -/
theorem handlesOf_elements (hload : load p (.obj members) = .ok s) (hshows : store.Shows id s)
    (a : Applicator) :
    HandlesOf store (p.child a.name) a.allowsLone (OrderedMap.get? a.name members)
      (Assembly.handlesOf (store.schema id) a) := by
  have helements := Store.elements_of_shows (f := ⟨p, .obj members⟩) hload hshows a
  obtain ⟨_, hvalue, hreads⟩ := Source.load_reads hload
  cases hvalue
  have hat : ∀ {i : Nat} {g : Fragment}, (Fragment.elements ⟨p, .obj members⟩ a)[i]? = some g →
      ∃ handle : Handle, (Assembly.handlesOf (store.schema id) a)[i]? = some handle ∧
        handle.StandsFor store none g.origin g.value := by
    intro i g hg
    have hi := congrArg (fun xs => xs[i]?) helements
    simp only [List.getElem?_map, hg, Option.map_some] at hi
    obtain ⟨e, he, heq⟩ := Option.map_eq_some_iff.mp hi
    obtain ⟨hfragment, horigin⟩ := Prod.mk.inj heq
    refine ⟨.ofElement e, ?_, hfragment, rfl, congrArg some horigin⟩
    rw [Assembly.handlesOf, List.getElem?_map, he]
    rfl
  have hlength : (Assembly.handlesOf (store.schema id) a).length =
      (Fragment.elements ⟨p, .obj members⟩ a).length := by
    simpa [Assembly.handlesOf] using congrArg List.length helements
  rcases (hreads.applied a).cases with ⟨hmember, _⟩ | ⟨w, field, hmember, _, _, _, hxs⟩
  · have hnone := Fragment.elements_of_absent (f := ⟨p, .obj members⟩) hmember
    rw [hnone] at hlength
    rw [hmember, List.eq_nil_of_length_eq_zero hlength]
    exact .absent
  · rw [hmember]
    rcases hxs with ⟨rfl, _⟩ | ⟨hlone, ⟨inner, rfl⟩, _⟩
    · have hlist := Fragment.elements_of_list (f := ⟨p, .obj members⟩) hmember
      refine .list (hlength.trans (by rw [hlist, List.length_mapIdx])) fun i w hw => ?_
      have hitem : (Fragment.elements ⟨p, .obj members⟩ a)[i]? =
          some ⟨(p.child a.name).element i, w⟩ := by
        rw [hlist, List.getElem?_mapIdx, hw]
        rfl
      exact hat hitem
    · have hone := Fragment.elements_of_lone (f := ⟨p, .obj members⟩) hlone hmember
      obtain ⟨handle, hhandle, hstands⟩ := hat (i := 0) (by rw [hone]; rfl)
      rw [hone] at hlength
      obtain ⟨only, honly⟩ := List.length_eq_one_iff.mp hlength
      rw [honly] at hhandle ⊢
      cases hhandle
      exact .lone hlone hstands

/-- The handles of properties stand for the members under `properties`. -/
theorem propertiesOf_entries (hdistinct : (Json.obj members).Distinct)
    (hload : load p (.obj members) = .ok s) (hshows : store.Shows id s) :
    PropertiesOf store (p.child "properties") (OrderedMap.get? "properties" members)
      (Assembly.sequential id (store.schema id)).properties := by
  have hentries := congrArg (List.map fun x => (x.1, x.2.1, some x.2.2.1, some x.2.2.2))
    (Store.entries_of_shows (f := ⟨p, .obj members⟩) hload hshows)
  rw [List.map_map, List.map_map] at hentries
  have hproperties : (Assembly.sequential id (store.schema id)).properties.map
        (fun e => (e.1, store.fragment? e.2.child, e.2.keyAt, e.2.valueAt)) =
      (Fragment.entries ⟨p, .obj members⟩).map fun e =>
        (e.1, some e.2, some e.2.origin, some e.2.origin) :=
    (List.map_map).trans hentries
  obtain ⟨_, hvalue, hreads⟩ := Source.load_reads hload
  cases hvalue
  rcases (hreads.fields .properties).cases with
    ⟨hmember, _⟩ | ⟨_, field, hmember, _, _, _, rfl, _⟩
  · have hmember : OrderedMap.get? "properties" members = none := hmember
    have hnone : Fragment.entries ⟨p, .obj members⟩ = [] :=
      Fragment.entries_of_absent (f := ⟨p, .obj members⟩) hmember
    rw [hnone] at hproperties
    rw [hmember, List.map_eq_nil_iff.mp hproperties]
    exact .absent
  · generalize field.value.map (fun e => (e.key, e.value.value)) = inner at hmember
    have hmember : OrderedMap.get? "properties" members = some (.obj inner) := hmember
    have hkeys := congrArg (List.map Prod.fst) hproperties
    have hinner : (Fragment.entries ⟨p, .obj members⟩).map Prod.fst = OrderedMap.keys inner := by
      rw [Fragment.entries_of_object (f := ⟨p, .obj members⟩) hmember, List.map_map]
      rfl
    rw [List.map_map, List.map_map] at hkeys
    have hkeys : OrderedMap.keys (Assembly.sequential id (store.schema id)).properties =
        OrderedMap.keys inner := hkeys.trans hinner
    rw [hmember]
    refine .object hkeys ?_ fun key w hw => ?_
    · rw [hkeys]
      cases Json.member?_distinct hdistinct hmember with
      | obj keys _ => exact keys
    · have hlookup := congrArg (OrderedMap.get? key) hproperties
      rw [OrderedMap.get?_map (fun _ h => (store.fragment? (Handle.child h), h.keyAt, h.valueAt)),
        OrderedMap.get?_map (fun _ g => (some g, some (Fragment.origin g), some g.origin)),
        Fragment.get?_entries (f := ⟨p, .obj members⟩) hmember, hw] at hlookup
      obtain ⟨handle, hhandle, heq⟩ := Option.map_eq_some_iff.mp hlookup
      obtain ⟨hfragment, hplaces⟩ := Prod.mk.inj heq
      obtain ⟨hkeyAt, hvalueAt⟩ := Prod.mk.inj hplaces
      exact ⟨handle, hhandle, hfragment, hkeyAt, hvalueAt⟩

/-- A view made in sequence has the values of the members. -/
theorem presents_sequential (hdistinct : (Json.obj members).Distinct)
    (hload : load p (.obj members) = .ok s) (hshows : store.Shows id s) :
    Presents store p members (Assembly.sequential id (store.schema id)) := by
  obtain ⟨_, hvalue, hreads⟩ := Source.load_reads hload
  cases hvalue
  have hscalars := scalars_comes hdistinct hreads hshows
  have hhandles := handlesOf_elements hload hshows
  exact {
    title := hscalars .title
    multipleOf := hscalars .multipleOf
    maximum := hscalars .maximum
    exclusiveMaximum := hscalars .exclusiveMaximum
    minimum := hscalars .minimum
    exclusiveMinimum := hscalars .exclusiveMinimum
    maxLength := hscalars .maxLength
    minLength := hscalars .minLength
    pattern := hscalars .pattern
    format := hscalars .format
    maxItems := hscalars .maxItems
    minItems := hscalars .minItems
    uniqueItems := hscalars .uniqueItems
    maxProperties := hscalars .maxProperties
    minProperties := hscalars .minProperties
    required := hscalars .required
    enumValues := hscalars .enumValues
    typeName := hscalars .typeName
    allOf := hhandles .allOf
    oneOf := hhandles .oneOf
    anyOf := hhandles .anyOf
    not := hhandles .not
    items := hhandles .items
    properties := propertiesOf_entries hdistinct hload hshows
    additionalProperties := hscalars .additionalProperties
    description := hscalars .description
    defaultValue := hscalars .defaultValue
    nullable := hscalars .nullable
    discriminator := hscalars .discriminator
    readOnly := hscalars .readOnly
    writeOnly := hscalars .writeOnly
    xml := hscalars .xml
    externalDocs := hscalars .externalDocs
    sample := hscalars .sample
    deprecated := hscalars .deprecated
    extensions := extensions_scalars hdistinct hreads hshows }

/-- What is known of the views of an object that is loaded and stored. -/
structure ViewsPresent (store : Store) (p : Pointer) (members : OrderedMap Json) (id : SchemaId)
    (workers : Nat) : Prop where
  /-- The assembly succeeds, as does every assembly whatever the schedule, with one and the same
  view, and that has the values of the members. -/
  succeeds : ∃ view, Assembly.assemble workers none id (store.schema id) = some (.ok view) ∧
    (∀ result, Assembly.Assembles workers none id (store.schema id) result → result = .ok view) ∧
    view.source = id ∧ view.Presents store p members
  /-- No schedule gets stuck or goes on forever. -/
  ends : (Assembly.Task.ofSource (store.schema id)).units ≠ 0 →
    ((Assembly.Task.ofSource (store.schema id)).plan workers none).Ends Pool.State.Returned
      (((Assembly.Task.ofSource (store.schema id)).plan workers none).initial
        (Assembly.Task.ofSource (store.schema id)).latch
        (Assembly.Board.empty (Assembly.Task.ofSource (store.schema id))))

/-- The view of an object is the object, field by field, with any number of workers and under every
schedule. -/
theorem view_presents_object {workers : Nat} (hv : (Json.obj members).InMemory)
    (hholds : Store.Holds p (.obj members) id store) (hworkers : 1 ≤ workers) :
    ViewsPresent store p members id workers := by
  obtain ⟨s, hload, hshows⟩ := hholds.shows
  have hmemory := Nat.lt_trans
    (Store.units_of_shows (f := ⟨p, .obj members⟩) hload hshows) hv.addressable
  have hall : ∀ result, Assembly.Assembles workers none id (store.schema id) result →
      result = .ok (Assembly.sequential id (store.schema id)) := by
    intro result hresult
    rcases Store.view_or_timeout_of_shows (f := ⟨p, .obj members⟩) hv hload hshows hresult with
      hview | ⟨_, _, hlimit, _⟩
    · exact hview
    · cases hlimit
  obtain ⟨result, hresult, hassembles⟩ :=
    Assembly.exists_assemble id hmemory hworkers (Latch.overflows_none 0)
  rw [hall _ hassembles] at hresult
  refine ⟨⟨_, hresult, hall, rfl, presents_sequential hv.distinct hload hshows⟩, fun hunits => ?_⟩
  have hends := Assembly.Task.ends (Assembly.Task.ofSource_proper _)
    (Assembly.Task.plan_fits hmemory workers none) hworkers hunits
  exact hends.returned rfl

/-- An object with a number, a flag, labels, a lone schema, properties and metadata for XML. -/
def manifoldMembers : OrderedMap Json :=
  [("title", .str "t"), ("maximum", .integer 2), ("nullable", .bool true),
    ("enum", .arr [.str "a", .integer 1, .null]), ("items", .obj []),
    ("properties", .obj [("b", .obj []), ("a", .obj [("$ref", .str "#")])]),
    ("xml", .obj [("name", .str "n"), ("x-k", .null)]), ("x-e", .bool false)]

/-- The view of the object at the pointer `/s`, made by three workers. -/
theorem view_presents_manifold : ∃ id store,
    Store.Holds ⟨"/s"⟩ (.obj manifoldMembers) id store ∧
      ViewsPresent store ⟨"/s"⟩ manifoldMembers id 3 ∧
      ∃ view, Assembly.assemble 3 none id (store.schema id) = some (.ok view) ∧
        view.title = some "t" ∧ view.enumValues = ["a", "1", "null"] ∧ view.items.length = 1 ∧
        OrderedMap.keys view.properties = ["b", "a"] := by
  have hv : (Json.obj manifoldMembers).InMemory := ⟨by decide, by decide⟩
  have hholds : Store.Holds ⟨"/s"⟩ (.obj manifoldMembers) _ _ := .intro .now rfl .now
  have hpresent := view_presents_object hv hholds (show 1 ≤ 3 by decide)
  obtain ⟨view, hview, _, _, hpresents⟩ := hpresent.succeeds
  refine ⟨_, _, hholds, hpresent, view, hview, ?_, ?_, ?_, ?_⟩
  · have htitle : some (Json.str "t") = view.title.map .str := hpresents.title
    obtain ⟨title, htitle, heq⟩ := Option.map_eq_some_iff.mp htitle.symm
    cases heq
    exact htitle
  · obtain ⟨items, hitems, hlabels⟩ := hpresents.enumValues
    cases hitems
    rw [hlabels]
    decide +kernel
  · have hitems := hpresents.items
    generalize view.items = handles at hitems ⊢
    generalize hmember : OrderedMap.get? "items" manifoldMembers = member at hitems
    cases hitems with
    | absent => cases hmember
    | list => cases hmember
    | lone => rfl
  · have hproperties := hpresents.properties
    generalize view.properties = handles at hproperties ⊢
    generalize hmember : OrderedMap.get? "properties" manifoldMembers = member at hproperties
    cases hproperties with
    | absent => cases hmember
    | object keys =>
        cases hmember
        exact keys

end View
end ApiSchema
