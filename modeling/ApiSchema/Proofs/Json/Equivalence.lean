import Mathlib.Data.List.Nodup
import Mathlib.Data.List.Perm.Subperm
import ApiSchema.Proofs.Equivalence
import ApiSchema.Proofs.Json.Same

/-!
Equality of JSON values is an equivalence.

Members of objects are compared under their keys, in whatever order they stand. With distinct keys,
a map of the same length in which every entry has a partner holds no entry without one, so the
comparison can be turned round.
-/

namespace ApiSchema

namespace OrderedMap

variable {α β : Type} {a : OrderedMap α} {b : OrderedMap β}

/-- Among distinct keys, as many as there are in another map and all of them found there, there are
all keys of that map. -/
theorem keys_subset_of_length_eq (ha : (keys a).Nodup) (hlength : a.length = b.length)
    (hsubset : ∀ key ∈ keys a, key ∈ keys b) : ∀ key ∈ keys b, key ∈ keys a := by
  have hle : (keys b).length ≤ (keys a).length := by
    simp only [keys, List.length_map, hlength, Nat.le_refl]
  have hperm := (List.subperm_of_subset ha hsubset).perm_of_length_le hle
  exact fun key => hperm.mem_iff.mpr

end OrderedMap

theorem Binary64.equivalenceAt {x : Binary64} (hx : x.isNan = false) :
    EquivalenceAt (fun y => y.isNan = false) numericEq x where
  refl := numericEq_self hx
  symm y _ hxy := by rw [numericEq_comm]; exact hxy
  trans y z hy hz hxy hyz := by
    simp only [numericEq, hx, hy, hz, Bool.not_false, Bool.true_and, Bool.or_eq_true,
      Bool.and_eq_true, beq_iff_eq] at hxy hyz ⊢
    rcases hxy with hbits | ⟨hzero, hzero'⟩
    · have heq : x = y := by cases x; cases y; exact congrArg _ hbits
      exact heq ▸ hyz
    · rcases hyz with hbits | ⟨_, hzero''⟩
      · have heq : y = z := by cases y; cases z; exact congrArg _ hbits
        exact Or.inr ⟨hzero, heq ▸ hzero'⟩
      · exact Or.inr ⟨hzero, hzero''⟩

namespace Source

variable {α : Type} {same : α → α → Bool} {x y : Option α}

theorem sameOption_isSome (h : sameOption same x y = true) : x.isSome = y.isSome := by
  cases x <;> cases y <;> first | rfl | cases h

/-- Equal optional values are both absent or both there. -/
theorem sameOption_cases (h : sameOption same x y = true) :
    (x = none ∧ y = none) ∨ ∃ a b, x = some a ∧ y = some b ∧ same a b = true := by
  cases x with
  | none =>
      cases y with
      | none => exact Or.inl ⟨rfl, rfl⟩
      | some b => cases h
  | some a =>
      cases y with
      | none => cases h
      | some b => exact Or.inr ⟨a, b, rfl, rfl, h⟩

theorem sameOption_some {a : α} (h : sameOption same (some a) y = true) :
    ∃ b, y = some b ∧ same a b = true := by
  cases y with
  | none => cases h
  | some b => exact ⟨b, rfl, h⟩

end Source

namespace Json

open Source (sameOption_isSome sameOption_some)

variable {v w : Json} {members others : OrderedMap Json}

/-- A value that can be there: no object in it repeats a key, and every real is a number. -/
structure Genuine (v : Json) : Prop where
  distinct : v.Distinct
  numeric : v.numeric = true

theorem Genuine.items {items : List Json} (h : (Json.arr items).Genuine) :
    ∀ item ∈ items, item.Genuine := by
  intro item hitem
  cases h.distinct with
  | arr distinct => exact ⟨distinct item hitem, numericItems_iff.mp h.numeric item hitem⟩

theorem Genuine.keys (h : (Json.obj members).Genuine) : (OrderedMap.keys members).Nodup := by
  cases h.distinct with
  | obj keys _ => exact keys

theorem Genuine.of_mem (h : (Json.obj members).Genuine) : ∀ m ∈ members, m.2.Genuine := by
  intro m hm
  cases h.distinct with
  | obj _ distinct => exact ⟨distinct m hm, numericMembers_iff.mp h.numeric m hm⟩

theorem Genuine.get? {key : String} (h : (Json.obj members).Genuine)
    (hv : OrderedMap.get? key members = some v) : v.Genuine :=
  h.of_mem _ (OrderedMap.mem_of_get? hv)

theorem Genuine.member? {key : String} (h : v.Genuine) (hw : v.member? key = some w) :
    w.Genuine := by
  cases v with
  | obj members => exact h.get? hw
  | _ => cases hw

theorem sameItems_eq : (items others : List Json) →
    sameItems items others = Source.sameList same items others
  | [], [] => rfl
  | [], _ :: _ => rfl
  | _ :: _, [] => rfl
  | a :: as, b :: bs => by rw [sameItems, Source.sameList, sameItems_eq as bs]

theorem sameMembers_iff : sameMembers members others = true ↔
    ∀ m ∈ members, ∃ w, OrderedMap.get? m.1 others = some w ∧ m.2.same w = true := by
  induction members with
  | nil => simp [sameMembers]
  | cons m rest ih =>
      rw [sameMembers, Bool.and_eq_true, ih, List.forall_mem_cons]
      refine and_congr_left' ?_
      cases OrderedMap.get? m.1 others with
      | none => simp
      | some w => simp

/-- Equal objects have the same keys, and equal values under each. -/
theorem same_obj_iff (hmembers : (OrderedMap.keys members).Nodup)
    (hothers : (OrderedMap.keys others).Nodup) :
    (Json.obj members).same (.obj others) = true ↔
      ∀ key, Source.sameOption same (OrderedMap.get? key members) (OrderedMap.get? key others) =
        true := by
  rw [same, Bool.and_eq_true, beq_iff_eq, sameMembers_iff]
  constructor
  · rintro ⟨hlength, hpartner⟩ key
    have hsubset : ∀ key ∈ OrderedMap.keys members, key ∈ OrderedMap.keys others := by
      intro key hkey
      obtain ⟨m, hm, rfl⟩ := List.mem_map.mp hkey
      obtain ⟨w, hw, _⟩ := hpartner m hm
      exact OrderedMap.get?_isSome.mp (Option.isSome_of_eq_some hw)
    cases hv : OrderedMap.get? key members with
    | some v =>
        obtain ⟨w, hw, hsame⟩ := hpartner _ (OrderedMap.mem_of_get? hv)
        rw [hw]
        exact hsame
    | none =>
        have hall := OrderedMap.keys_subset_of_length_eq hmembers hlength hsubset key
        rw [OrderedMap.get?_eq_none.mpr fun hkey => OrderedMap.get?_eq_none.mp hv (hall hkey)]
        rfl
  · intro h
    have hkeys : (OrderedMap.keys members).Perm (OrderedMap.keys others) := by
      refine (List.perm_ext_iff_of_nodup hmembers hothers).mpr fun key => ?_
      rw [← OrderedMap.get?_isSome, ← OrderedMap.get?_isSome, sameOption_isSome (h key)]
    refine ⟨by simpa [OrderedMap.keys] using hkeys.length_eq, fun m hm => ?_⟩
    have hkey := h m.1
    rw [OrderedMap.get?_of_mem hmembers hm] at hkey
    exact sameOption_some hkey

theorem string?_eq_of_same (h : v.same w = true) : v.string? = w.string? := by
  cases v <;> cases w <;> first | rfl | cases h | skip
  exact congrArg some (eq_of_beq h)

/-- Equal values hold equal numbers. -/
theorem sameNumber {x y : Binary64} (hv : v.Genuine) (h : v.same w = true)
    (hx : v.number? = some x) (hy : w.number? = some y) : x.numericEq y = true := by
  have hx' := isNan_number? hv.numeric hx
  cases v with
  | integer i =>
      cases w with
      | integer j =>
          obtain rfl : i = j := eq_of_beq h
          cases hx
          cases hy
          exact Binary64.numericEq_self hx'
      | _ => cases h
  | real a =>
      cases w with
      | real b =>
          cases hx
          cases hy
          exact h
      | _ => cases h
  | _ => cases hx

theorem exists_arr_of_same {items : List Json} (h : (Json.arr items).same w = true) :
    ∃ others, w = .arr others ∧ Source.sameList same items others = true := by
  cases w with
  | arr others =>
      rw [same, sameItems_eq] at h
      exact ⟨others, rfl, h⟩
  | _ => cases h

theorem exists_obj_of_same (h : (Json.obj members).same w = true) :
    ∃ others, w = .obj others ∧ (Json.obj members).same (.obj others) = true := by
  cases w with
  | obj others => exact ⟨others, rfl, h⟩
  | _ => cases h

/-- Equal values have equal members. -/
theorem sameOption_member? (hv : v.Genuine) (hw : w.Genuine) (h : v.same w = true) (key : String) :
    Source.sameOption same (v.member? key) (w.member? key) = true := by
  cases v with
  | obj members =>
      obtain ⟨others, rfl, h⟩ := exists_obj_of_same h
      exact (same_obj_iff hv.keys hw.keys).mp h key
  | _ => cases w <;> first | rfl | cases h

/-- Equal objects are equal in what is left of them when members are taken out by their keys. -/
theorem same_filter (test : String → Bool) (hmembers : (OrderedMap.keys members).Nodup)
    (hothers : (OrderedMap.keys others).Nodup) (h : (Json.obj members).same (.obj others) = true) :
    (Json.obj (members.filter fun m => test m.1)).same
      (.obj (others.filter fun m => test m.1)) = true := by
  have hfilter : ∀ {map : OrderedMap Json}, (OrderedMap.keys map).Nodup →
      (OrderedMap.keys (map.filter fun m => test m.1)).Nodup :=
    fun hmap => hmap.sublist (List.filter_sublist.map Prod.fst)
  rw [same_obj_iff (hfilter hmembers) (hfilter hothers)]
  intro key
  rw [OrderedMap.get?_filter, OrderedMap.get?_filter]
  split
  · exact (same_obj_iff hmembers hothers).mp h key
  · rfl

/-- An object is compared by what is found under each key. -/
theorem equivalenceAt_obj (h : (Json.obj members).Genuine)
    (hvalues : ∀ m ∈ members, EquivalenceAt Genuine same m.2) :
    EquivalenceAt (fun others => (Json.obj others).Genuine)
      (fun a b => (Json.obj a).same (.obj b)) members := by
  have hkey : ∀ key, EquivalenceAt (fun others => (Json.obj others).Genuine)
      (fun a b => Source.sameOption same (OrderedMap.get? key a) (OrderedMap.get? key b))
      members := by
    intro key
    refine .comap (OrderedMap.get? key) (.option fun v hv => ?_) fun others ho w hw => ho.get? hw
    exact hvalues _ (OrderedMap.mem_of_get? hv)
  refine ⟨same_self h.distinct h.numeric, fun b hb hab => ?_, fun b c hb hc hab hbc => ?_⟩
  · rw [same_obj_iff h.keys hb.keys] at hab
    rw [same_obj_iff hb.keys h.keys]
    exact fun key => (hkey key).symm b hb (hab key)
  · rw [same_obj_iff h.keys hb.keys] at hab
    rw [same_obj_iff hb.keys hc.keys] at hbc
    rw [same_obj_iff h.keys hc.keys]
    exact fun key => (hkey key).trans b c hb hc (hab key) (hbc key)

/-- Among values that can be there, equality is an equivalence. -/
theorem Genuine.equivalenceAt (h : v.Genuine) : EquivalenceAt Genuine same v := by
  obtain ⟨hdistinct, hnumeric⟩ := h
  induction hdistinct with
  | null => exact .of_eq fun w => by cases w <;> simp [same]
  | bool b => exact .of_eq fun w => by cases w <;> simp [same]
  | integer i => exact .of_eq fun w => by cases w <;> simp [same]
  | str s => exact .of_eq fun w => by cases w <;> simp [same]
  | real x =>
      refine (Binary64.equivalenceAt ((Bool.not_eq_true' _).mp hnumeric)).embed Json.real
        (fun _ _ => rfl) (fun a w hw => ?_) fun y hy => (Bool.not_eq_true' _).mp hy.numeric
      cases w with
      | real y => exact ⟨y, rfl⟩
      | _ => cases hw
  | @arr items distinct ih =>
      have hitems := Genuine.items ⟨.arr distinct, hnumeric⟩
      refine (EquivalenceAt.list fun item hitem => ih item hitem (hitems item hitem).numeric).embed
        Json.arr (fun a b => ?_) (fun a w hw => ?_) fun _ hothers => hothers.items
      · rw [same, sameItems_eq]
      · cases w with
        | arr others => exact ⟨others, rfl⟩
        | _ => cases hw
  | @obj members keys distinct ih =>
      have hobject : (Json.obj members).Genuine := ⟨.obj keys distinct, hnumeric⟩
      refine (equivalenceAt_obj hobject fun m hm => ih m hm (hobject.of_mem m hm).numeric).embed
        Json.obj (fun _ _ => rfl) (fun a w hw => ?_) fun _ => id
      cases w with
      | obj others => exact ⟨others, rfl⟩
      | _ => cases hw

end Json
end ApiSchema
