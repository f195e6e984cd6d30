import ApiSchema.Proofs.Json.Same
import ApiSchema.Proofs.View.Document
import ApiSchema.View.Equality

/-!
Views of one schema are equal.

Equality of views compares what they show and where they come from. A view shows maps with distinct
keys and what is in the document, so it equals itself as soon as the document has no not-a-number in
it. Views that come from different schemas are never equal, however much alike they are.
-/

namespace ApiSchema

open Source (Schema Fragment load sameOption)

variable {store : Store} {f : Fragment} {members : OrderedMap Json} {view : View} {w? : Option Json}

/-- A map with distinct keys equals itself if all its values do. -/
theorem OrderedMap.sameEntries_self {α : Type} {same : α → α → Bool} {map : OrderedMap α}
    (hkeys : (keys map).Nodup) (hsame : ∀ entry ∈ map, same entry.2 entry.2 = true) :
    sameEntries same map map = true := by
  rw [sameEntries, beq_self_eq_true, Bool.true_and, List.all_eq_true]
  intro entry hentry
  rw [get?_of_mem hkeys hentry]
  exact hsame entry hentry

namespace View

theorem sameExtensions_self {xs : OrderedMap Json} (hdistinct : (Json.obj members).Distinct)
    (hnumeric : (Json.obj members).numeric = true) (h : ExtensionsOf members xs) :
    OrderedMap.sameEntries Json.same xs xs = true := by
  rw [ExtensionsOf] at h
  subst h
  cases hdistinct with
  | obj keys distinct =>
      refine OrderedMap.sameEntries_self (keys.sublist (List.filter_sublist.map Prod.fst)) ?_
      intro entry hentry
      have hmem := List.mem_of_mem_filter hentry
      exact Json.same_self (distinct entry hmem) (Json.numericMembers_iff.mp hnumeric entry hmem)

theorem sameMapping_self {xs : OrderedMap String} (hdistinct : (w?.getD (.obj [])).Distinct)
    (h : MappingOf w? xs) : OrderedMap.sameEntries (· == ·) xs xs = true := by
  rw [MappingOf] at h
  rw [h] at hdistinct
  cases hdistinct with
  | obj keys _ =>
      rw [OrderedMap.keys, List.map_map] at keys
      exact OrderedMap.sameEntries_self keys fun entry _ => beq_self_eq_true entry.2

theorem Discriminator.same_self {x : Option Discriminator}
    (hdistinct : ∀ w, w? = some w → w.Distinct) (h : DiscriminatorOf w? x) :
    sameOption Discriminator.same x x = true := by
  cases h with
  | absent => rfl
  | @object members d propertyName mapping =>
      have hmapping : ((OrderedMap.get? "mapping" members).getD (.obj [])).Distinct := by
        cases hmember : OrderedMap.get? "mapping" members with
        | none => exact .obj List.nodup_nil (List.forall_mem_nil _)
        | some w => exact Json.member?_distinct (hdistinct _ rfl) hmember
      rw [sameOption, Discriminator.same, sameMapping_self hmapping mapping, beq_self_eq_true,
        Bool.and_self]

theorem Xml.same_self {x : Option Xml} (hdistinct : ∀ w, w? = some w → w.Distinct)
    (hnumeric : ∀ w, w? = some w → w.numeric = true) (h : XmlOf w? x) :
    sameOption Xml.same x x = true := by
  cases h with
  | absent => rfl
  | object _ _ _ _ _ extensions =>
      simp [sameOption, Xml.same, sameExtensions_self (hdistinct _ rfl) (hnumeric _ rfl) extensions]

theorem ExternalDocs.same_self {x : Option ExternalDocs} (hdistinct : ∀ w, w? = some w → w.Distinct)
    (hnumeric : ∀ w, w? = some w → w.numeric = true) (h : ExternalDocsOf w? x) :
    sameOption ExternalDocs.same x x = true := by
  cases h with
  | absent => rfl
  | object _ _ extensions =>
      simp [sameOption, ExternalDocs.same,
        sameExtensions_self (hdistinct _ rfl) (hnumeric _ rfl) extensions]

theorem sameNumber_self {x : Option Binary64} (hnumeric : ∀ w, w? = some w → w.numeric = true)
    (h : NumberOf w? x) : sameOption Binary64.numericEq x x = true := by
  cases x with
  | none => rfl
  | some x =>
      obtain ⟨w, hw, hnumber⟩ := Option.map_eq_some_iff.mp h
      exact Binary64.numericEq_self (Json.isNan_number? (hnumeric w hw) hnumber)

theorem sameValue_self {x : Option Json} (hdistinct : ∀ w, w? = some w → w.Distinct)
    (hnumeric : ∀ w, w? = some w → w.numeric = true) (h : ValueOf w? x) :
    sameOption Json.same x x = true := by
  cases x with
  | none => rfl
  | some w => exact Json.same_self (hdistinct w h) (hnumeric w h)

/-- What comes from a member equals itself, shape by shape. Of properties nothing is known here. -/
theorem sameShown_self {shape : Shape} {x : shape.Shown} (hshape : shape ≠ .properties)
    (hdistinct : ∀ w, w? = some w → w.Distinct) (hnumeric : ∀ w, w? = some w → w.numeric = true)
    (h : shape.Comes w? x) : shape.sameShown x x = true := by
  cases shape with
  | text => exact beq_self_eq_true (x : Option String)
  | number => exact sameNumber_self hnumeric h
  | natural => exact beq_self_eq_true (x : Option Nat)
  | flag => exact beq_self_eq_true (x : Bool)
  | names => exact beq_self_eq_true (x : List String)
  | values => exact beq_self_eq_true (x : List String)
  | schemas => exact beq_self_eq_true (x : List Handle)
  | schemaOrSchemas => exact beq_self_eq_true (x : List Handle)
  | properties => exact absurd rfl hshape
  | any => exact sameValue_self hdistinct hnumeric h
  | discriminator => exact Discriminator.same_self hdistinct h
  | xml => exact Xml.same_self hdistinct hnumeric h
  | externalDocs => exact ExternalDocs.same_self hdistinct hnumeric h

namespace Pictures

/-- What a view shows comes from the members of the object it pictures. -/
theorem comes (h : view.Pictures store f) (hvalue : f.value = .obj members)
    (hdistinct : f.value.Distinct) (k : Keyword) :
    k.shape.Comes (OrderedMap.get? k.name members) (view.get k) := by
  obtain ⟨s, hload, hshows⟩ := h.stored
  obtain ⟨_, hobject, hreads⟩ := Source.load_reads hload
  cases hvalue.symm.trans hobject
  have hscalars := scalars_comes (hvalue ▸ hdistinct) hreads hshows k
  rw [h.made]
  cases k <;> exact hscalars

/-- The view of an object equals itself. -/
theorem same_self (h : view.Pictures store f) (hdistinct : f.value.Distinct)
    (hnumeric : f.value.numeric = true) : view.same view = true := by
  obtain ⟨s, hload, hshows⟩ := h.stored
  obtain ⟨members, hvalue, hreads⟩ := Source.load_reads hload
  have hcomes := h.comes hvalue hdistinct
  have hkeys : (OrderedMap.keys view.properties).Nodup := by
    rw [h.made]
    show ((store.schema view.source).entries.map fun e => (e.key, Handle.ofEntry e)).map Prod.fst
      |>.Nodup
    rw [List.map_map]
    exact Store.keys_of_shows hdistinct hload hshows
  have hextensions : ExtensionsOf members view.extensions := by
    rw [h.made]
    exact extensions_scalars (hvalue ▸ hdistinct) hreads hshows
  have hmembers : ∀ key w, OrderedMap.get? key members = some w →
      w.Distinct ∧ w.numeric = true := by
    intro key w hw
    rw [hvalue] at hdistinct hnumeric
    exact ⟨Json.member?_distinct hdistinct hw,
      Json.numericMembers_iff.mp hnumeric _ (OrderedMap.mem_of_get? hw)⟩
  have hshown : ∀ k : Keyword, k.shape.sameShown (view.get k) (view.get k) = true := by
    intro k
    by_cases hk : k.shape = .properties
    · have hk : k = .properties := by
        cases k <;> first | rfl | cases hk
      subst hk
      exact OrderedMap.sameEntries_self hkeys fun entry _ => beq_self_eq_true entry.2
    · exact sameShown_self hk (fun w hw => (hmembers _ w hw).1) (fun w hw => (hmembers _ w hw).2)
        (hcomes k)
  rw [View.same, beq_self_eq_true, Bool.and_true, Bool.and_eq_true, List.all_eq_true]
  exact ⟨fun k _ => hshown k,
    sameExtensions_self (hvalue ▸ hdistinct) (hvalue ▸ hnumeric) hextensions⟩

end Pictures

/-- Views of different schemas are not equal. -/
theorem same_eq_false {a b : View} (h : a.source ≠ b.source) : a.same b = false := by
  rw [View.same, beq_eq_false_iff_ne.mpr h, Bool.and_false]

end View
end ApiSchema
