import ApiSchema.Proofs.Json.Distinct
import ApiSchema.Proofs.Source.Reading

/-!
Writing a schema back as a value.

`Schema.render` writes every field under its key. What the loader has read from an object is written
back as the part of that object that a schema knows of, up to the order of members.
-/

namespace ApiSchema
namespace Source

/-- The rows of a table that have a value. -/
def rendered (rows : OrderedMap (Option Json)) : OrderedMap Json :=
  OrderedMap.select (fun _ w => w) rows

def renderExtensions (xs : List (Entry Json)) : OrderedMap Json :=
  xs.map fun e => (e.key, e.value)

def renderText (field : Option (Field String)) : Option Json :=
  field.map fun f => .str f.value

def renderFlag (field : Option (Field Bool)) : Option Json :=
  field.map fun f => .bool f.value

/-- A discriminator as an object. An empty mapping is left out. -/
def Discriminator.render (d : Discriminator) : Json :=
  .obj (rendered [
    ("propertyName", renderText d.propertyName),
    ("mapping", if d.mapping.isEmpty then none
      else some (.obj (d.mapping.map fun e => (e.key, .str e.value))))])

def Xml.render (x : Xml) : Json :=
  .obj (rendered [
    ("name", renderText x.name),
    ("namespace", renderText x.uri),
    ("prefix", renderText x.qualifier),
    ("attribute", renderFlag x.asAttribute),
    ("wrapped", renderFlag x.wrapped)] ++ renderExtensions x.extensions)

def ExternalDocs.render (d : ExternalDocs) : Json :=
  .obj (rendered [
    ("description", renderText d.description),
    ("url", renderText d.url)] ++ renderExtensions d.extensions)

def renderFragments (xs : List (Element Fragment)) : Json :=
  .arr (xs.map (·.value.value))

/-- A list of nested schemas as a lone fragment, if it has one element that stands where the field
itself does, and as an array otherwise. -/
def renderLone (valueAt : Option Pointer) : List (Element Fragment) → Json
  | [e] => if valueAt = some e.origin then e.value.value else renderFragments [e]
  | xs => renderFragments xs

end Source

open Source in
def Shape.render : (shape : Shape) → Source.Field (shape.Value Fragment) → Json
  | .text => fun f => .str f.value
  | .number => fun f => .real f.value
  | .natural => fun f => .integer f.value
  | .flag => fun f => .bool f.value
  | .names => fun f => .arr (f.value.map fun e => .str e.value)
  | .values => fun f => .arr (f.value.map (·.value))
  | .schemas => fun f => renderFragments f.value
  | .schemaOrSchemas => fun f => renderLone f.valueAt f.value
  | .properties => fun f => .obj (f.value.map fun e => (e.key, e.value.value))
  | .any => fun f => f.value
  | .discriminator => fun f => f.value.render
  | .xml => fun f => f.value.render
  | .externalDocs => fun f => f.value.render

namespace Source

/-- Every field of a schema under its key. -/
def Schema.rows (s : Schema Fragment) : OrderedMap (Option Json) := [
  ("title", s.title.map (Shape.render .text)),
  ("multipleOf", s.multipleOf.map (Shape.render .number)),
  ("maximum", s.maximum.map (Shape.render .number)),
  ("exclusiveMaximum", s.exclusiveMaximum.map (Shape.render .flag)),
  ("minimum", s.minimum.map (Shape.render .number)),
  ("exclusiveMinimum", s.exclusiveMinimum.map (Shape.render .flag)),
  ("maxLength", s.maxLength.map (Shape.render .natural)),
  ("minLength", s.minLength.map (Shape.render .natural)),
  ("pattern", s.pattern.map (Shape.render .text)),
  ("format", s.format.map (Shape.render .text)),
  ("maxItems", s.maxItems.map (Shape.render .natural)),
  ("minItems", s.minItems.map (Shape.render .natural)),
  ("uniqueItems", s.uniqueItems.map (Shape.render .flag)),
  ("maxProperties", s.maxProperties.map (Shape.render .natural)),
  ("minProperties", s.minProperties.map (Shape.render .natural)),
  ("required", s.required.map (Shape.render .names)),
  ("enum", s.enumValues.map (Shape.render .values)),
  ("type", s.typeName.map (Shape.render .text)),
  ("allOf", s.allOf.map (Shape.render .schemas)),
  ("oneOf", s.oneOf.map (Shape.render .schemas)),
  ("anyOf", s.anyOf.map (Shape.render .schemas)),
  ("not", s.not.map (Shape.render .schemaOrSchemas)),
  ("items", s.items.map (Shape.render .schemaOrSchemas)),
  ("properties", s.properties.map (Shape.render .properties)),
  ("additionalProperties", s.additionalProperties.map (Shape.render .any)),
  ("description", s.description.map (Shape.render .text)),
  ("default", s.defaultValue.map (Shape.render .any)),
  ("nullable", s.nullable.map (Shape.render .flag)),
  ("discriminator", s.discriminator.map (Shape.render .discriminator)),
  ("readOnly", s.readOnly.map (Shape.render .flag)),
  ("writeOnly", s.writeOnly.map (Shape.render .flag)),
  ("xml", s.xml.map (Shape.render .xml)),
  ("externalDocs", s.externalDocs.map (Shape.render .externalDocs)),
  ("example", s.sample.map (Shape.render .any)),
  ("deprecated", s.deprecated.map (Shape.render .flag))]

def Schema.render (s : Schema Fragment) : Json :=
  .obj (rendered s.rows ++ renderExtensions s.extensions)

/-- A number as the binary64 number it is read as. -/
def asReal (w : Json) : Json :=
  match w.number? with
  | some x => .real x
  | none => w

/-- The members of an object that have one of the known keys, and the extensions. -/
def restrictTo (known : List String) : Json → Json
  | .obj members => .obj (OrderedMap.select (fun key w =>
      if key ∈ known ∨ isExtensionKey key then some w else none) members)
  | w => w

def restrictDiscriminatorMember : String → Json → Option Json
  | "propertyName", w => some w
  | "mapping", .obj [] => none
  | "mapping", w => some w
  | _, _ => none

/-- The members of a discriminator that are read, without an empty mapping. -/
def restrictDiscriminator : Json → Json
  | .obj members => .obj (OrderedMap.select restrictDiscriminatorMember members)
  | w => w

end Source

open Source in
/-- What is left of a value of a shape, if only what is read of it is kept. -/
def Shape.restrict : Shape → Json → Json
  | .number => asReal
  | .discriminator => restrictDiscriminator
  | .xml => restrictTo ["name", "namespace", "prefix", "attribute", "wrapped"]
  | .externalDocs => restrictTo ["description", "url"]
  | _ => id

namespace Source

def restrictMember (key : String) (w : Json) : Option Json :=
  match Keyword.ofName? key with
  | some k => some (k.shape.restrict w)
  | none => if isExtensionKey key then some w else none

/-- What is left of a schema object, if only what is read of it is kept: the members with known keys
and the extensions. -/
def restrictSchema : Json → Json
  | .obj members => .obj (OrderedMap.select restrictMember members)
  | w => w

theorem get?_rendered {rows : OrderedMap (Option Json)} (hrows : (OrderedMap.keys rows).Nodup)
    (key : String) : OrderedMap.get? key (rendered rows) = (OrderedMap.get? key rows).join := by
  rw [rendered, OrderedMap.get?_select _ hrows]
  cases OrderedMap.get? key rows <;> rfl

theorem get?_renderExtensions {p : Pointer} {members : OrderedMap Json} {xs : List (Entry Json)}
    (h : Extends p members xs) (key : String) :
    OrderedMap.get? key (renderExtensions xs) =
      if isExtensionKey key then OrderedMap.get? key members else none := by
  rw [renderExtensions, h.1, OrderedMap.get?_filter]

/-- Rows and extensions never share a key. -/
theorem nodup_rendered {rows : OrderedMap (Option Json)} {p : Pointer} {members : OrderedMap Json}
    {xs : List (Entry Json)} (hrows : (OrderedMap.keys rows).Nodup)
    (hplain : ∀ key ∈ OrderedMap.keys rows, isExtensionKey key = false)
    (hmembers : (OrderedMap.keys members).Nodup) (h : Extends p members xs) :
    (OrderedMap.keys (rendered rows ++ renderExtensions xs)).Nodup := by
  have hxs : renderExtensions xs = members.filter fun m => isExtensionKey m.1 := h.1
  have hleft := OrderedMap.nodup_keys_select (fun _ w => w) hrows
  have hright : (OrderedMap.keys (renderExtensions xs)).Nodup := by
    rw [hxs]
    exact hmembers.sublist (List.filter_sublist.map Prod.fst)
  rw [OrderedMap.keys, List.map_append]
  refine List.nodup_append.mpr ⟨hleft, hright, ?_⟩
  rintro key hkey _ hextension rfl
  have hplain := hplain key ((OrderedMap.keys_select_sublist _ rows).subset hkey)
  obtain ⟨m, hm, rfl⟩ := List.mem_map.mp hextension
  rw [hxs] at hm
  rw [(List.mem_filter.mp hm).2] at hplain
  cases hplain

/-- A field is written as the member it keeps. `back` is the way back from what it is read as. -/
theorem Keeps.map_back {α : Type} {reads : Json → α → Prop} {back : α → Json}
    (hback : ∀ w x, reads w x → w = back x) {p : Pointer} {members : OrderedMap Json}
    {key : String} {field : Option (Field α)} (h : Keeps reads p members key field) :
    (field.map fun f => back f.value) = OrderedMap.get? key members := by
  rcases h.cases with ⟨hmember, rfl⟩ | ⟨w, f, hmember, rfl, _, _, hreads⟩
  · exact hmember.symm
  · rw [hmember, hback w f.value hreads]
    rfl

theorem renderText_eq {p : Pointer} {members : OrderedMap Json} {key : String}
    {field : Option (Field String)} (h : Keeps IsText p members key field) :
    renderText field = OrderedMap.get? key members :=
  h.map_back fun _ _ => id

theorem renderFlag_eq {p : Pointer} {members : OrderedMap Json} {key : String}
    {field : Option (Field Bool)} (h : Keeps IsFlag p members key field) :
    renderFlag field = OrderedMap.get? key members :=
  h.map_back fun _ _ => id

/-- Objects whose lookups come to alike values are alike. -/
theorem alike_of_lookups {a b : OrderedMap Json} (ha : (OrderedMap.keys a).Nodup)
    (hb : (OrderedMap.keys b).Nodup)
    (h : ∀ key, OrderedMap.get? key a = none ∧ OrderedMap.get? key b = none ∨
      ∃ x y, OrderedMap.get? key a = some x ∧ OrderedMap.get? key b = some y ∧ Json.Alike x y) :
    Json.Alike (.obj a) (.obj b) := by
  refine .obj ha hb (fun key => ?_) fun key x y hx hy => ?_
  · rcases h key with ⟨ha, hb⟩ | ⟨x, y, ha, hb, _⟩
    · rw [ha, hb]
    · rw [ha, hb]
      rfl
  · rcases h key with ⟨ha, _⟩ | ⟨x', y', ha, hb, halike⟩
    · rw [ha] at hx
      cases hx
    · rw [ha] at hx
      rw [hb] at hy
      cases hx
      cases hy
      exact halike

/-- Objects with the same lookups are alike. -/
theorem alike_of_get? {a b : OrderedMap Json} (ha : (OrderedMap.keys a).Nodup)
    (hb : (OrderedMap.keys b).Nodup)
    (h : ∀ key, OrderedMap.get? key a = OrderedMap.get? key b) : Json.Alike (.obj a) (.obj b) := by
  refine alike_of_lookups ha hb fun key => ?_
  cases hlookup : OrderedMap.get? key b with
  | none => exact Or.inl ⟨(h key).trans hlookup, rfl⟩
  | some y => exact Or.inr ⟨y, y, (h key).trans hlookup, rfl, .refl y⟩

/-- A leaf object is written back up to the order of its members. `known` are the keys of its
rows. -/
theorem leaf_alike {rows : OrderedMap (Option Json)} {known : List String} {p : Pointer}
    {members : OrderedMap Json} {xs : List (Entry Json)}
    (hrows : rows = known.map fun key => (key, OrderedMap.get? key members))
    (hknown : known.Nodup) (hplain : ∀ key ∈ known, isExtensionKey key = false)
    (hmembers : (OrderedMap.keys members).Nodup) (h : Extends p members xs) :
    Json.Alike (.obj (rendered rows ++ renderExtensions xs)) (restrictTo known (.obj members)) := by
  have hkeys : OrderedMap.keys rows = known := by
    simp [hrows, OrderedMap.keys, Function.comp_def]
  have hnodup : (OrderedMap.keys rows).Nodup := hkeys ▸ hknown
  refine alike_of_get? (nodup_rendered hnodup (hkeys ▸ hplain) hmembers h)
    (OrderedMap.nodup_keys_select _ hmembers) fun key => ?_
  rw [OrderedMap.get?_append, get?_rendered hnodup, get?_renderExtensions h,
    OrderedMap.get?_select _ hmembers]
  by_cases hkey : key ∈ known
  · have hrow : OrderedMap.get? key rows = some (OrderedMap.get? key members) :=
      OrderedMap.get?_of_mem hnodup (hrows ▸ List.mem_map_of_mem hkey)
    rw [hrow]
    cases hmember : OrderedMap.get? key members <;> simp [hkey, hplain key hkey]
  · have hrow : OrderedMap.get? key rows = none := OrderedMap.get?_eq_none.mpr (hkeys ▸ hkey)
    rw [hrow]
    by_cases hextension : isExtensionKey key = true <;> simp [hkey, hextension]

theorem Xml.alike {p : Pointer} {members : OrderedMap Json} {x : Xml} (h : x.Reads p members)
    (hmembers : (OrderedMap.keys members).Nodup) :
    Json.Alike x.render (restrictTo ["name", "namespace", "prefix", "attribute", "wrapped"]
      (.obj members)) := by
  refine leaf_alike ?_ (by decide) (by decide) hmembers h.extensions
  rw [renderText_eq h.name, renderText_eq h.uri, renderText_eq h.qualifier,
    renderFlag_eq h.asAttribute, renderFlag_eq h.wrapped]
  rfl

theorem ExternalDocs.alike {p : Pointer} {members : OrderedMap Json} {d : ExternalDocs}
    (h : d.Reads p members) (hmembers : (OrderedMap.keys members).Nodup) :
    Json.Alike d.render (restrictTo ["description", "url"] (.obj members)) := by
  refine leaf_alike ?_ (by decide) (by decide) hmembers h.extensions
  rw [renderText_eq h.description, renderText_eq h.url]
  rfl

/-- What is written of a mapping is what is left of its member. -/
theorem mapping_eq {p : Pointer} {members : OrderedMap Json} {xs : List (Entry String)}
    (h : IsMapping p members xs) :
    (if xs.isEmpty then none else some (.obj (xs.map fun e => (e.key, .str e.value)))) =
      (OrderedMap.get? "mapping" members).bind (restrictDiscriminatorMember "mapping") := by
  unfold IsMapping at h
  split at h
  next hmember =>
    rw [hmember, h]
    rfl
  next w hmember =>
    rw [hmember, h.1]
    cases xs <;> rfl

theorem Discriminator.alike {p : Pointer} {members : OrderedMap Json} {d : Discriminator}
    (h : d.Reads p members) (hmembers : (OrderedMap.keys members).Nodup) :
    Json.Alike d.render (restrictDiscriminator (.obj members)) := by
  have hrows : (OrderedMap.keys [("propertyName", renderText d.propertyName),
      ("mapping", if d.mapping.isEmpty then none
        else some (.obj (d.mapping.map fun e => (e.key, .str e.value))))]).Nodup := by
    simp [OrderedMap.keys]
  refine alike_of_get? (OrderedMap.nodup_keys_select _ hrows)
    (OrderedMap.nodup_keys_select _ hmembers) fun key => ?_
  rw [get?_rendered hrows, OrderedMap.get?_select _ hmembers, renderText_eq h.propertyName,
    mapping_eq h.mapping]
  by_cases hname : key = "propertyName"
  · subst hname
    cases OrderedMap.get? "propertyName" members <;> rfl
  by_cases hmapping : key = "mapping"
  · subst hmapping
    rfl
  · have hother : restrictDiscriminatorMember key = fun _ => none := by
      funext w
      unfold restrictDiscriminatorMember
      split
      · exact absurd rfl hname
      · exact absurd rfl hmapping
      · exact absurd rfl hmapping
      · rfl
    rw [hother]
    simp [OrderedMap.get?, Ne.symm hname, Ne.symm hmapping]

theorem get?_rows (s : Schema Fragment) (k : Keyword) :
    OrderedMap.get? k.name s.rows = some ((s.get k).map k.shape.render) := by
  cases k <;> rfl

theorem keys_rows (s : Schema Fragment) : OrderedMap.keys s.rows = Keyword.all.map Keyword.name :=
  rfl

theorem isExtensionKey_name (k : Keyword) : isExtensionKey k.name = false := by
  cases k <;> rfl

theorem element_ne (p : Pointer) (index : Nat) : p ≠ p.element index := by
  intro h
  have hlength := congrArg (fun q : Pointer => q.text.length) h
  simp only [Pointer.element, String.length_append] at hlength
  have hslash : "/".length = 1 := rfl
  omega

/-- An array is written back as one: no element of it stands where the field does. -/
theorem renderLone_fragments {p : Pointer} {w : Json} {xs : List (Element Fragment)}
    (h : IsFragments p w xs) : renderLone (some p) xs = w := by
  obtain ⟨hw, hnumbered, _⟩ := h
  rw [hw]
  unfold renderLone
  split
  next e _ =>
    have horigin : e.origin = p.element 0 := hnumbered 0 e rfl
    rw [if_neg]
    · rfl
    · rw [horigin, Option.some.injEq]
      exact element_ne p 0
  next => rfl

/-- A field is written back as what is left of the value it was read from. -/
theorem shape_alike {p : Pointer} {w : Json} {shape : Shape} {f : Field (shape.Value Fragment)}
    (hreads : shape.Reads p w f.value) (hplace : f.valueAt = some p) (hdistinct : w.Distinct) :
    Json.Alike (shape.render f) (shape.restrict w) := by
  cases shape with
  | text => exact hreads ▸ .refl w
  | number =>
      have hreal : asReal w = .real f.value := by
        rw [asReal, show w.number? = some f.value from hreads]
      show Json.Alike (.real f.value) (asReal w)
      rw [hreal]
      exact .refl _
  | natural => exact hreads ▸ .refl w
  | flag => exact hreads ▸ .refl w
  | names => exact hreads.1 ▸ .refl w
  | values => exact hreads.1 ▸ .refl w
  | schemas => exact hreads.1 ▸ .refl w
  | schemaOrSchemas =>
      have hlone : renderLone f.valueAt f.value = w := by
        rw [hplace]
        rcases hreads with hreads | ⟨_, hlone⟩
        · exact renderLone_fragments hreads
        · rw [hlone]
          exact if_pos rfl
      exact hlone ▸ .refl _
  | properties => exact hreads.1 ▸ .refl w
  | any => exact hreads ▸ .refl w
  | discriminator =>
      obtain ⟨members, rfl, hreads⟩ := hreads
      cases hdistinct with
      | obj keys _ => exact Discriminator.alike hreads keys
  | xml =>
      obtain ⟨members, rfl, hreads⟩ := hreads
      cases hdistinct with
      | obj keys _ => exact Xml.alike hreads keys
  | externalDocs =>
      obtain ⟨members, rfl, hreads⟩ := hreads
      cases hdistinct with
      | obj keys _ => exact ExternalDocs.alike hreads keys

theorem nodup_rows (s : Schema Fragment) : (OrderedMap.keys s.rows).Nodup := by
  rw [keys_rows]
  decide

/-- The lookup of a keyword in a schema that is written back. -/
theorem get?_render_name {p : Pointer} {members : OrderedMap Json} {s : Schema Fragment}
    (h : s.Reads p members) (k : Keyword) :
    OrderedMap.get? k.name (rendered s.rows ++ renderExtensions s.extensions) =
      (s.get k).map k.shape.render := by
  rw [OrderedMap.get?_append, get?_rendered (nodup_rows s), get?_renderExtensions h.extensions,
    get?_rows, isExtensionKey_name]
  exact Option.or_none

/-- The lookup of any other key. -/
theorem get?_render_unknown {p : Pointer} {members : OrderedMap Json} {s : Schema Fragment}
    (h : s.Reads p members) {key : String} (hkey : Keyword.ofName? key = none) :
    OrderedMap.get? key (rendered s.rows ++ renderExtensions s.extensions) =
      if isExtensionKey key then OrderedMap.get? key members else none := by
  have hrow : OrderedMap.get? key s.rows = none := by
    rw [OrderedMap.get?_eq_none, keys_rows]
    intro hmem
    obtain ⟨k, _, rfl⟩ := List.mem_map.mp hmem
    rw [Keyword.ofName?_name] at hkey
    cases hkey
  rw [OrderedMap.get?_append, get?_rendered (nodup_rows s), get?_renderExtensions h.extensions,
    hrow]
  rfl

/-- A schema is written back as what is left of the object it was read from. -/
theorem Schema.alike {p : Pointer} {members : OrderedMap Json} {s : Schema Fragment}
    (h : s.Reads p members) (hmembers : (OrderedMap.keys members).Nodup)
    (hdistinct : ∀ m ∈ members, m.2.Distinct) :
    Json.Alike s.render (restrictSchema (.obj members)) := by
  have hplain : ∀ key ∈ OrderedMap.keys s.rows, isExtensionKey key = false := by
    intro key hkey
    obtain ⟨k, _, rfl⟩ := List.mem_map.mp (keys_rows s ▸ hkey)
    exact isExtensionKey_name k
  refine alike_of_lookups (nodup_rendered (nodup_rows s) hplain hmembers h.extensions)
    (OrderedMap.nodup_keys_select _ hmembers) fun key => ?_
  rw [OrderedMap.get?_select _ hmembers]
  cases hkey : Keyword.ofName? key with
  | none =>
      rw [get?_render_unknown h hkey]
      cases hmember : OrderedMap.get? key members with
      | none => exact Or.inl ⟨by simp, rfl⟩
      | some w =>
          by_cases hextension : isExtensionKey key = true
          · exact Or.inr ⟨w, w, by simp [hextension], by simp [restrictMember, hkey, hextension],
              .refl w⟩
          · exact Or.inl ⟨by simp [hextension], by simp [restrictMember, hkey, hextension]⟩
  | some k =>
      obtain rfl := Keyword.name_of_ofName? hkey
      rw [get?_render_name h]
      rcases (h.fields k).cases with ⟨hmember, hfield⟩ | ⟨w, f, hmember, hfield, _, hplace, hreads⟩
      · exact Or.inl ⟨by rw [hfield]; rfl, by rw [hmember]; rfl⟩
      · have hw := hdistinct _ (OrderedMap.mem_of_get? hmember)
        exact Or.inr ⟨k.shape.render f, k.shape.restrict w, by rw [hfield]; rfl,
          by simp [hmember, restrictMember, hkey], shape_alike hreads hplace hw⟩

/-- A loaded schema has a field for a keyword if and only if the document has the member. -/
theorem Schema.Reads.isSome_iff {p : Pointer} {members : OrderedMap Json} {s : Schema Fragment}
    (h : s.Reads p members) (k : Keyword) :
    (s.get k).isSome = true ↔ (OrderedMap.get? k.name members).isSome = true := by
  rcases (h.fields k).cases with ⟨hmember, hfield⟩ | ⟨w, f, hmember, hfield, _⟩
  · rw [hmember, hfield]
    rfl
  · rw [hmember, hfield]
    exact iff_of_true rfl rfl

/-- What a schema keeps of the value at `p` that it is loaded from. -/
structure Faithful (p : Pointer) (v : Json) (s : Schema Fragment) : Prop where
  /-- The schema is written back as what is left of the value. -/
  written : Json.Alike s.render (restrictSchema v)
  /-- A field is there if and only if its member is. -/
  present : ∀ k, (s.get k).isSome = true ↔ (v.member? k.name).isSome = true
  /-- Order, lengths and places are those of the value. -/
  ordered : ∃ members, v = .obj members ∧ s.Reads p members

theorem Schema.Reads.faithful {p : Pointer} {members : OrderedMap Json} {s : Schema Fragment}
    (h : s.Reads p members) (hdistinct : (Json.obj members).Distinct) :
    Faithful p (.obj members) s := by
  cases hdistinct with
  | obj keys distinct => exact ⟨Schema.alike h keys distinct, h.isSome_iff, members, rfl, h⟩

/-- Loading loses nothing that a schema knows of, and invents nothing. -/
theorem load_faithful {p : Pointer} {v : Json} {s : Schema Fragment} (hdistinct : v.Distinct)
    (h : load p v = .ok s) : Faithful p v s := by
  obtain ⟨members, rfl, hreads⟩ := load_reads h
  exact hreads.faithful hdistinct

/-- A lone nested schema, a list of one, a number, a member that is not known, and an extension. -/
def mixedDocument : Json :=
  .obj [("new", .null), ("not", .obj []), ("items", .arr [.obj []]), ("maximum", .integer 3),
    ("x-a", .bool true)]

def mixedSchema : Schema Fragment where
  maximum := some (.loaded ⟨"/maximum"⟩ (Binary64.ofInt 3))
  not := some (.loaded ⟨"/not"⟩ [⟨⟨⟨"/not"⟩, .obj []⟩, ⟨"/not"⟩⟩])
  items := some (.loaded ⟨"/items"⟩ [⟨⟨⟨"/items/0"⟩, .obj []⟩, ⟨"/items/0"⟩⟩])
  extensions := [⟨"x-a", ⟨"/x-a"⟩, .bool true, ⟨"/x-a"⟩⟩]

/-- The lone schema is told apart from the list of one, and the unknown member is left out. -/
theorem load_faithful_mixed :
    mixedDocument.Distinct ∧ load .root mixedDocument = .ok mixedSchema ∧
      Faithful .root mixedDocument mixedSchema := by
  have hdistinct : mixedDocument.Distinct := by decide
  have hload : load .root mixedDocument = .ok mixedSchema := rfl
  exact ⟨hdistinct, hload, load_faithful hdistinct hload⟩

end Source
end ApiSchema
