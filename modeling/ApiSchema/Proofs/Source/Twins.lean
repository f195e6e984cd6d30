import ApiSchema.Proofs.Source.Acceptance
import ApiSchema.Proofs.Source.Descent
import ApiSchema.Proofs.Source.Reordered

/-!
Equal fragments build to the same.

Two fragments are twins if they stand at one place and their values are equal, whatever the order of
members. Then they are references to the same target or neither is one, one of them loads if and
only if the other does, the schemas that they load as match, and what is nested in one has a twin in
the other. So the same goes for everything below them.
-/

namespace ApiSchema
namespace Source

variable {α : Type} {v w : Json}

/-- A rule that cannot tell equal values apart. -/
def Rule.Respects (rule : Rule) : Prop :=
  ∀ v w : Json, v.Genuine → w.Genuine → v.same w = true → rule.Fits v → rule.Fits w

namespace Rule.Respects

variable {rule : Rule}

theorem anything : Rule.anything.Respects :=
  fun _ _ _ _ _ h => h

theorem string : Rule.string.Respects := by
  rintro v w _ _ hsame ⟨s, rfl⟩
  cases w with
  | str s' => exact ⟨s', rfl⟩
  | _ => cases hsame

theorem boolean : Rule.boolean.Respects := by
  rintro v w _ _ hsame ⟨b, rfl⟩
  cases w with
  | bool b' => exact ⟨b', rfl⟩
  | _ => cases hsame

theorem number : Rule.number.Respects := by
  rintro v w _ _ hsame (⟨i, rfl⟩ | ⟨x, rfl⟩)
  · cases w with
    | integer j => exact Or.inl ⟨j, rfl⟩
    | _ => cases hsame
  · cases w with
    | real y => exact Or.inr ⟨y, rfl⟩
    | _ => cases hsame

theorem unsigned : Rule.unsigned.Respects := by
  rintro v w _ _ hsame ⟨n, rfl⟩
  cases w with
  | integer j => exact ⟨n, congrArg Json.integer (eq_of_beq hsame).symm⟩
  | _ => cases hsame

theorem nested : Rule.nested.Respects := by
  rintro v w _ _ hsame ⟨members, rfl⟩
  obtain ⟨others, rfl, _⟩ := Json.exists_obj_of_same hsame
  exact ⟨others, rfl⟩

theorem list (h : rule.Respects) (wanted : String) : (Rule.list rule wanted).Respects := by
  rintro v w hv hw hsame ⟨items, rfl, hfits⟩
  obtain ⟨others, rfl, hitems⟩ := Json.exists_arr_of_same hsame
  refine ⟨others, rfl, fun y hy => ?_⟩
  obtain ⟨i, hi⟩ := List.mem_iff_getElem?.mp hy
  rcases sameOption_cases (sameList_iff.mp hitems i) with ⟨_, hnone⟩ | ⟨x, y', hx, hy', hitem⟩
  · cases hi.symm.trans hnone
  · cases hi.symm.trans hy'
    have hmem := List.mem_of_getElem? hx
    exact h x y (hv.items x hmem) (hw.items y hy) hitem (hfits x hmem)

theorem object {member : String → Rule} (h : ∀ key, (member key).Respects)
    (refusal : Pointer → LoadError) : (Rule.object member refusal).Respects := by
  rintro v w hv hw hsame ⟨members, rfl, hfits⟩
  obtain ⟨others, rfl, hsame⟩ := Json.exists_obj_of_same hsame
  refine ⟨others, rfl, fun m hm => ?_⟩
  have hm' := OrderedMap.get?_of_mem hw.keys hm
  rcases sameOption_cases ((Json.same_obj_iff hv.keys hw.keys).mp hsame m.1) with
    ⟨_, hnone⟩ | ⟨x, y, hx, hy, hmember⟩
  · cases hm'.symm.trans hnone
  · cases hm'.symm.trans hy
    exact h m.1 x m.2 (hv.get? hx) (hw.of_mem m hm) hmember (hfits _ (OrderedMap.mem_of_get? hx))

theorem orElse {first second : Rule} (h : first.Respects) (h' : second.Respects) :
    (Rule.orElse first second).Respects :=
  fun v w hv hw hsame => Or.imp (h v w hv hw hsame) (h' v w hv hw hsame)

theorem discriminatorMember (key : String) : (Rule.discriminatorMember key).Respects := by
  unfold Rule.discriminatorMember
  split
  · exact string
  · exact object (fun _ => string) _
  · exact anything

theorem xmlMember (key : String) : (Rule.xmlMember key).Respects := by
  unfold Rule.xmlMember
  split
  all_goals first | exact string | exact boolean | exact anything

theorem externalDocsMember (key : String) : (Rule.externalDocsMember key).Respects := by
  unfold Rule.externalDocsMember
  split
  all_goals first | exact string | exact anything

theorem schemaMember (key : String) : (Rule.schemaMember key).Respects := by
  unfold Rule.schemaMember
  split
  all_goals first
    | exact string
    | exact number
    | exact unsigned
    | exact boolean
    | exact list string _
    | exact list anything _
    | exact list nested _
    | exact orElse nested (list nested _)
    | exact object (fun _ => nested) _
    | exact object discriminatorMember _
    | exact object xmlMember _
    | exact object externalDocsMember _
    | exact anything

theorem schema : Rule.schema.Respects :=
  object schemaMember _

end Rule.Respects

def Fragment.same (f g : Fragment) : Bool :=
  f.origin == g.origin && f.value.same g.value

section Read

variable {p : Pointer} {members others : OrderedMap Json} {key : String}

/-- Fields that keep equal members match. -/
theorem Keeps.matches {R : α → α → Prop} {reads : Json → α → Prop} {x y : Option (Field α)}
    (hx : Keeps reads p members key x) (hy : Keeps reads p others key y)
    (hkey : sameOption Json.same (OrderedMap.get? key members) (OrderedMap.get? key others) = true)
    (hR : ∀ v w a b, OrderedMap.get? key members = some v → OrderedMap.get? key others = some w →
      v.same w = true → reads v a → reads w b → R a b) : FieldsMatch R x y := by
  rcases hx.cases with ⟨hv, rfl⟩ | ⟨v, a, hv, rfl, hkeyAt, hvalueAt, ha⟩
  · rcases hy.cases with ⟨hw, rfl⟩ | ⟨w, b, hw, rfl, _, _, hb⟩
    · trivial
    · rw [hv, hw] at hkey
      cases hkey
  · rcases hy.cases with ⟨hw, rfl⟩ | ⟨w, b, hw, rfl, hkeyAt', hvalueAt', hb⟩
    · rw [hv, hw] at hkey
      cases hkey
    · rw [hv, hw] at hkey
      exact ⟨hR v w a.value b.value hv hw hkey ha hb, hkeyAt.trans hkeyAt'.symm,
        hvalueAt.trans hvalueAt'.symm⟩

/-- Elements that are read from equal items are equal. -/
theorem sameList_of_items {xs ys : List (Element α)} {back : Element α → Json}
    {same : Element α → Element α → Bool} (hx : Numbered p xs) (hy : Numbered p ys)
    (hitems : (Json.arr (xs.map back)).same (.arr (ys.map back)) = true)
    (h : ∀ e ∈ xs, ∀ e' ∈ ys, e.origin = e'.origin → (back e).same (back e') = true →
      same e e' = true) : sameList same xs ys = true := by
  rw [Json.same, Json.sameItems_eq, sameList_map, sameList_iff] at hitems
  rw [sameList_iff]
  intro i
  rcases sameOption_cases (hitems i) with ⟨hxi, hyi⟩ | ⟨e, e', hxi, hyi, hvalue⟩
  · rw [hxi, hyi]
    rfl
  · rw [hxi, hyi]
    exact h e (List.mem_of_getElem? hxi) e' (List.mem_of_getElem? hyi)
      ((hx i e hxi).trans (hy i e' hyi).symm) hvalue

/-- Entries that are read from equal members are equal up to order. -/
theorem reordered_of_members {xs ys : List (Entry α)} {back : Entry α → Json}
    {same : Entry α → Entry α → Bool} (hx : Keyed p xs) (hy : Keyed p ys)
    (hkeys : (OrderedMap.keys (xs.map fun e => (e.key, back e))).Nodup)
    (hmembers : (Json.obj (xs.map fun e => (e.key, back e))).same
      (.obj (ys.map fun e => (e.key, back e))) = true)
    (h : ∀ e ∈ xs, ∀ e' ∈ ys, e.key = e'.key → e.keyAt = e'.keyAt → e.valueAt = e'.valueAt →
      (back e).same (back e') = true → same e e' = true) : Reordered same xs ys := by
  rw [Json.same, Bool.and_eq_true, beq_iff_eq, Json.sameMembers_iff] at hmembers
  obtain ⟨hlength, hpartner⟩ := hmembers
  rw [OrderedMap.keys, List.map_map] at hkeys
  refine reordered_of_keys Entry.key hkeys (by simpa using hlength) fun e he => ?_
  obtain ⟨w, hw, hvalue⟩ := hpartner (e.key, back e) (List.mem_map_of_mem he)
  obtain ⟨e', he', heq⟩ := List.mem_map.mp (OrderedMap.mem_of_get? hw)
  obtain ⟨hkey, rfl⟩ := Prod.mk.inj heq
  have hplaces := hx e he
  have hplaces' := hy e' he'
  rw [hkey] at hplaces'
  exact ⟨e', he', hkey, h e he e' he' hkey.symm (hplaces.1.trans hplaces'.1.symm)
    (hplaces.2.trans hplaces'.2.symm) hvalue⟩

section Objects

variable (hmembers : (Json.obj members).Genuine) (hothers : (Json.obj others).Genuine)
  (hsame : (Json.obj members).same (.obj others) = true)
include hmembers hothers hsame

theorem same_member (key : String) :
    sameOption Json.same (OrderedMap.get? key members) (OrderedMap.get? key others) = true :=
  (Json.same_obj_iff hmembers.keys hothers.keys).mp hsame key

theorem sameField_text {x y : Option (Field String)} (hx : Keeps IsText p members key x)
    (hy : Keeps IsText p others key y) : sameField (· == ·) x y = true := by
  refine sameField_of_matches (hx.matches hy (same_member hmembers hothers hsame key) ?_)
  rintro v w a b _ _ hvalue rfl rfl
  exact hvalue

theorem sameField_flag {x y : Option (Field Bool)} (hx : Keeps IsFlag p members key x)
    (hy : Keeps IsFlag p others key y) : sameField (· == ·) x y = true := by
  refine sameField_of_matches (hx.matches hy (same_member hmembers hothers hsame key) ?_)
  rintro v w a b _ _ hvalue rfl rfl
  exact hvalue

theorem Extends.matches {xs ys : List (Entry Json)} (hx : Extends p members xs)
    (hy : Extends p others ys) : Reordered (Entry.same Json.same) xs ys := by
  have hfilter := Json.same_filter isExtensionKey hmembers.keys hothers.keys hsame
  rw [← hx.1, ← hy.1] at hfilter
  have hkeys : (OrderedMap.keys (xs.map fun e => (e.key, e.value))).Nodup := by
    rw [hx.1]
    exact hmembers.keys.sublist (List.filter_sublist.map Prod.fst)
  refine reordered_of_members hx.2 hy.2 hkeys hfilter fun e _ e' _ hkey hkeyAt hvalueAt hvalue => ?_
  simp [Entry.same, hkey, hkeyAt, hvalueAt, hvalue]

theorem IsMapping.matches {xs ys : List (Entry String)} (hx : IsMapping p members xs)
    (hy : IsMapping p others ys) : Reordered (Entry.same (· == ·)) xs ys := by
  unfold IsMapping at hx hy
  rcases sameOption_cases (same_member hmembers hothers hsame "mapping") with
    ⟨hv, hw⟩ | ⟨v, w, hv, hw, hsame⟩
  · rw [hv] at hx
    rw [hw] at hy
    subst hx hy
    exact ⟨[], .refl _, rfl⟩
  · rw [hv] at hx
    rw [hw] at hy
    have hgenuine := hmembers.get? hv
    obtain ⟨rfl, hkeyed⟩ := hx
    obtain ⟨rfl, hkeyed'⟩ := hy
    refine reordered_of_members hkeyed hkeyed' hgenuine.keys hsame
      fun e _ e' _ hkey hkeyAt hvalueAt hvalue => ?_
    have hvalue : (e.value == e'.value) = true := hvalue
    simp only [Entry.same, hkey, hkeyAt, hvalueAt, hvalue, beq_self_eq_true, Bool.and_self]

theorem Discriminator.Reads.matches {a b : Discriminator} (ha : Discriminator.Reads p members a)
    (hb : Discriminator.Reads p others b) : a.Matches b :=
  ⟨sameField_text hmembers hothers hsame ha.propertyName hb.propertyName,
    ha.mapping.matches hmembers hothers hsame hb.mapping⟩

theorem Xml.Reads.matches {a b : Xml} (ha : Xml.Reads p members a)
    (hb : Xml.Reads p others b) : a.Matches b := by
  have hname := sameField_text hmembers hothers hsame ha.name hb.name
  have huri := sameField_text hmembers hothers hsame ha.uri hb.uri
  have hqualifier := sameField_text hmembers hothers hsame ha.qualifier hb.qualifier
  have hattribute := sameField_flag hmembers hothers hsame ha.asAttribute hb.asAttribute
  have hwrapped := sameField_flag hmembers hothers hsame ha.wrapped hb.wrapped
  refine ⟨?_, ha.extensions.matches hmembers hothers hsame hb.extensions⟩
  simp only [Xml.same, hname, huri, hqualifier, hattribute, hwrapped, Bool.true_and]
  rfl

theorem ExternalDocs.Reads.matches {a b : ExternalDocs} (ha : ExternalDocs.Reads p members a)
    (hb : ExternalDocs.Reads p others b) : a.Matches b := by
  have hdescription := sameField_text hmembers hothers hsame ha.description hb.description
  have hurl := sameField_text hmembers hothers hsame ha.url hb.url
  refine ⟨?_, ha.extensions.matches hmembers hothers hsame hb.extensions⟩
  simp only [ExternalDocs.same, hdescription, hurl, Bool.true_and]
  rfl

end Objects

theorem IsFragments.matches {xs ys : List (Element Fragment)} (hsame : v.same w = true)
    (hx : IsFragments p v xs) (hy : IsFragments p w ys) :
    sameList (Element.same Fragment.same) xs ys = true := by
  obtain ⟨rfl, hnumbered, horigins⟩ := hx
  obtain ⟨rfl, hnumbered', horigins'⟩ := hy
  refine sameList_of_items hnumbered hnumbered' hsame fun e he e' he' horigin hvalue => ?_
  have hplace : e.value.origin = e'.value.origin := by
    rw [horigins e he, horigins' e' he', horigin]
  simp only [Element.same, Fragment.same, hplace, horigin, hvalue, beq_self_eq_true, Bool.and_self]

end Read

end Source

open Source in
/-- What is read from equal values matches, shape by shape. -/
theorem Shape.Reads.matches {p : Pointer} {v w : Json} {shape : Shape}
    {x y : shape.Value Fragment} (hv : v.Genuine) (hw : w.Genuine) (hsame : v.same w = true)
    (hx : shape.Reads p v x) (hy : shape.Reads p w y) : shape.Matches Fragment.same x y := by
  cases shape with
  | text =>
      obtain rfl : v = .str x := hx
      obtain rfl : w = .str y := hy
      exact hsame
  | flag =>
      obtain rfl : v = .bool x := hx
      obtain rfl : w = .bool y := hy
      exact hsame
  | natural =>
      obtain rfl : v = .integer (x : Nat) := hx
      obtain rfl : w = .integer (y : Nat) := hy
      exact beq_iff_eq.mpr (Int.ofNat_inj.mp (eq_of_beq hsame))
  | number => exact Json.sameNumber hv hsame hx hy
  | names =>
      obtain ⟨rfl, hnumbered⟩ := hx
      obtain ⟨rfl, hnumbered'⟩ := hy
      refine sameList_of_items hnumbered hnumbered' hsame fun e _ e' _ horigin hvalue => ?_
      have hvalue : (e.value == e'.value) = true := hvalue
      rw [Element.same, hvalue, horigin, beq_self_eq_true, Bool.and_self]
  | values =>
      obtain ⟨rfl, hnumbered⟩ := hx
      obtain ⟨rfl, hnumbered'⟩ := hy
      refine sameList_of_items hnumbered hnumbered' hsame fun e _ e' _ horigin hvalue => ?_
      rw [Element.same, hvalue, horigin, beq_self_eq_true, Bool.and_self]
  | schemas => exact IsFragments.matches hsame hx hy
  | schemaOrSchemas =>
      rcases hx with hx | ⟨⟨members, rfl⟩, rfl⟩
      · rcases hy with hy | ⟨⟨others, rfl⟩, rfl⟩
        · exact hx.matches hsame hy
        · obtain ⟨rfl, _⟩ := hx
          cases hsame
      · rcases hy with hy | ⟨⟨others, rfl⟩, rfl⟩
        · obtain ⟨rfl, _⟩ := hy
          cases hsame
        · simp [Shape.Matches, Shape.same, sameList, Element.same, Fragment.same, hsame]
  | properties =>
      obtain ⟨rfl, hkeyed, horigins⟩ := hx
      obtain ⟨rfl, hkeyed', horigins'⟩ := hy
      refine reordered_of_members hkeyed hkeyed' hv.keys hsame
        fun e he e' he' hkey hkeyAt hvalueAt hvalue => ?_
      have hplace : e.value.origin = e'.value.origin := by
        rw [horigins e he, horigins' e' he', hvalueAt]
      simp only [Entry.same, Fragment.same, hkey, hkeyAt, hvalueAt, hplace, hvalue,
        beq_self_eq_true, Bool.and_self]
  | any =>
      obtain rfl : v = x := hx
      obtain rfl : w = y := hy
      exact hsame
  | discriminator =>
      obtain ⟨members, rfl, hx⟩ := hx
      obtain ⟨others, rfl, hy⟩ := hy
      exact hx.matches hv hw hsame hy
  | xml =>
      obtain ⟨members, rfl, hx⟩ := hx
      obtain ⟨others, rfl, hy⟩ := hy
      exact hx.matches hv hw hsame hy
  | externalDocs =>
      obtain ⟨members, rfl, hx⟩ := hx
      obtain ⟨others, rfl, hy⟩ := hy
      exact hx.matches hv hw hsame hy

namespace Source

variable {p : Pointer} {v w : Json}

/-- What is loaded from equal values matches. -/
theorem matches_of_load {s t : Schema Fragment} (hv : v.Genuine) (hw : w.Genuine)
    (hsame : v.same w = true) (hs : load p v = .ok s) (ht : load p w = .ok t) :
    s.Matches Fragment.same t := by
  obtain ⟨members, rfl, hreads⟩ := load_reads hs
  obtain ⟨others, rfl, hreads'⟩ := load_reads ht
  refine ⟨fun k => ?_, hreads.extensions.matches hv hw hsame hreads'.extensions⟩
  refine (hreads.fields k).matches (hreads'.fields k) (same_member hv hw hsame k.name) ?_
  exact fun v' w' a b hv' hw' hsame' ha hb => ha.matches (hv.get? hv') (hw.get? hw') hsame' hb

/-- Fragments that stand at one place and have equal values. -/
structure Fragment.Twin (f g : Fragment) : Prop where
  origin : f.origin = g.origin
  same : f.value.same g.value = true
  left : f.value.Genuine
  right : g.value.Genuine

namespace Fragment.Twin

variable {f g f' : Fragment} {step : Step}

theorem symm (h : f.Twin g) : g.Twin f :=
  ⟨h.origin.symm, h.left.equivalenceAt.symm _ h.right h.same, h.right, h.left⟩

theorem reference?_eq (h : f.Twin g) : f.reference? = g.reference? := by
  unfold reference?
  rcases sameOption_cases (Json.sameOption_member? h.left h.right h.same "$ref") with
    ⟨hv, hw⟩ | ⟨v, w, hv, hw, hvalue⟩
  · rw [hv, hw]
  · rw [hv, hw]
    exact Json.string?_eq_of_same hvalue

/-- If one of two twins loads, so does the other, and the schemas match. -/
theorem builds (h : f.Twin g) {s : Schema Fragment} (hs : f.build = .ok s) :
    ∃ t, g.build = .ok t ∧ s.Matches Fragment.same t := by
  have hload := load_of_build hs
  have hfits : Rule.schema.Fits f.value := (load_decides f.origin f.value).accepts.mp ⟨s, hload⟩
  have hfits' := Rule.Respects.schema _ _ h.left h.right h.same hfits
  obtain ⟨t, ht⟩ := (load_decides g.origin g.value).accepts.mpr hfits'
  have hown : f.reference? = none := reference?_eq_none.mpr (builds_iff.mpr hs).1
  refine ⟨t, ?_, matches_of_load h.left h.right h.same hload (h.origin ▸ ht)⟩
  rw [build, ← h.reference?_eq, hown]
  exact ht

/-- What is nested in one of two twins has a twin nested in the other. -/
theorem nests (h : f.Twin g) (hf : f.Nests step f') : ∃ g', g.Nests step g' ∧ f'.Twin g' := by
  have hmember : ∀ {key : String} {v : Json}, f.value.member? key = some v →
      ∃ w, g.value.member? key = some w ∧ v.same w = true ∧ v.Genuine ∧ w.Genuine := by
    intro key v hv
    have hkey := Json.sameOption_member? h.left h.right h.same key
    rw [hv] at hkey
    obtain ⟨w, hw, hvalue⟩ := sameOption_some hkey
    exact ⟨w, hw, hvalue, h.left.member? hv, h.right.member? hw⟩
  cases hf with
  | @item a index items v list here =>
      obtain ⟨w, hw, hsame, hgenuine, hgenuine'⟩ := hmember list
      obtain ⟨others, rfl, hitems⟩ := Json.exists_arr_of_same hsame
      have hitem := sameList_iff.mp hitems index
      rw [here] at hitem
      obtain ⟨u, hu, hvalue⟩ := sameOption_some hitem
      refine ⟨_, .item hw hu, by rw [h.origin], hvalue, ?_, ?_⟩
      · exact hgenuine.items v (List.mem_of_getElem? here)
      · exact hgenuine'.items u (List.mem_of_getElem? hu)
  | lone allowed alone =>
      obtain ⟨w, hw, hsame, hgenuine, hgenuine'⟩ := hmember alone
      obtain ⟨others, rfl, hsame⟩ := Json.exists_obj_of_same hsame
      exact ⟨_, .lone allowed hw, by rw [h.origin], hsame, hgenuine, hgenuine'⟩
  | @property members key v object here =>
      obtain ⟨w, hw, hsame, hgenuine, hgenuine'⟩ := hmember object
      obtain ⟨others, rfl, hsame⟩ := Json.exists_obj_of_same hsame
      have hentry := same_member hgenuine hgenuine' hsame key
      rw [here] at hentry
      obtain ⟨u, hu, hvalue⟩ := sameOption_some hentry
      exact ⟨_, .property hw hu, by rw [h.origin], hvalue, hgenuine.get? here, hgenuine'.get? hu⟩

end Fragment.Twin

end Source
end ApiSchema
