import ApiSchema.Source.Equality

/-!
Comparisons that are equivalences.

A comparison of compound values is put together from comparisons of their parts, and it is an
equivalence because those are. This is told of one value at a time: then it can be proved along the
value, and a comparison that calls itself further down is known to be an equivalence there.
-/

namespace ApiSchema

variable {α β : Type} {P Q : α → Prop} {same same' : α → α → Bool}

/-- Seen from one value, a comparison is an equivalence among the values with a property. -/
structure EquivalenceAt (P : α → Prop) (same : α → α → Bool) (a : α) : Prop where
  refl : same a a = true
  symm : ∀ b, P b → same a b = true → same b a = true
  trans : ∀ b c, P b → P c → same a b = true → same b c = true → same a c = true

namespace EquivalenceAt

/-- An equivalence among some values is one among fewer. -/
theorem mono {a : α} (h : EquivalenceAt P same a) (hPQ : ∀ b, Q b → P b) :
    EquivalenceAt Q same a :=
  ⟨h.refl, fun b hb => h.symm b (hPQ b hb), fun b c hb hc => h.trans b c (hPQ b hb) (hPQ c hc)⟩

/-- What is the same comparison among some values is the same equivalence. -/
theorem congr {a : α} (h : EquivalenceAt P same a) (ha : P a)
    (hsame : ∀ a b, P a → P b → same' a b = same a b) : EquivalenceAt P same' a where
  refl := by rw [hsame a a ha ha, h.refl]
  symm b hb hab := by
    rw [hsame a b ha hb] at hab
    rw [hsame b a hb ha, h.symm b hb hab]
  trans b c hb hc hab hbc := by
    rw [hsame a b ha hb] at hab
    rw [hsame b c hb hc] at hbc
    rw [hsame a c ha hc, h.trans b c hb hc hab hbc]

/-- Values are compared by a part of theirs. -/
theorem comap {Q : β → Prop} (part : β → α) {b : β} (h : EquivalenceAt P same (part b))
    (hpart : ∀ b, Q b → P (part b)) :
    EquivalenceAt Q (fun x y => same (part x) (part y)) b where
  refl := h.refl
  symm c hc := h.symm (part c) (hpart c hc)
  trans c d hc hd := h.trans (part c) (part d) (hpart c hc) (hpart d hd)

/-- A value that is the same as itself only. -/
theorem of_eq {a : α} (h : ∀ b, same a b = true ↔ a = b) : EquivalenceAt P same a where
  refl := (h a).mpr rfl
  symm b _ hab := by
    obtain rfl := (h b).mp hab
    exact hab
  trans b c _ _ hab hbc := by
    obtain rfl := (h b).mp hab
    exact hbc

/-- A value of one kind is compared with values of its kind only, by what they are made of. -/
theorem embed {Q : β → Prop} {kind : β → β → Bool} (make : α → β) {a : α}
    (h : EquivalenceAt P same a) (hsame : ∀ a b, kind (make a) (make b) = same a b)
    (hkind : ∀ a y, kind (make a) y = true → ∃ b, y = make b) (hmake : ∀ b, Q (make b) → P b) :
    EquivalenceAt Q kind (make a) where
  refl := (hsame a a).trans h.refl
  symm y hy hay := by
    obtain ⟨b, rfl⟩ := hkind a y hay
    rw [hsame] at hay ⊢
    exact h.symm b (hmake b hy) hay
  trans y z hy hz hay hyz := by
    obtain ⟨b, rfl⟩ := hkind a y hay
    obtain ⟨c, rfl⟩ := hkind b z hyz
    rw [hsame] at hay hyz ⊢
    exact h.trans b c (hmake b hy) (hmake c hz) hay hyz

/-- A part is compared by equality. -/
theorem beq [BEq β] [LawfulBEq β] (part : α → β) (a : α) :
    EquivalenceAt P (fun x y => part x == part y) a where
  refl := beq_self_eq_true (part a)
  symm b _ hab := by rw [beq_iff_eq] at hab ⊢; exact hab.symm
  trans b c _ _ hab hbc := by rw [beq_iff_eq] at hab hbc ⊢; exact hab.trans hbc

/-- Values are compared in two ways. -/
theorem and {a : α} (h : EquivalenceAt P same a) (h' : EquivalenceAt P same' a) :
    EquivalenceAt P (fun x y => same x y && same' x y) a where
  refl := by rw [h.refl, h'.refl, Bool.and_self]
  symm b hb hab := by
    obtain ⟨hsame, hsame'⟩ := Bool.and_eq_true_iff.mp hab
    rw [h.symm b hb hsame, h'.symm b hb hsame', Bool.and_self]
  trans b c hb hc hab hbc := by
    obtain ⟨hsame, hsame'⟩ := Bool.and_eq_true_iff.mp hab
    obtain ⟨htail, htail'⟩ := Bool.and_eq_true_iff.mp hbc
    rw [h.trans b c hb hc hsame htail, h'.trans b c hb hc hsame' htail', Bool.and_self]

/-- Values are compared in every way on a list. -/
theorem all {ι : Type} {same : ι → α → α → Bool} {a : α} (ways : List ι)
    (h : ∀ i, EquivalenceAt P (same i) a) :
    EquivalenceAt P (fun x y => ways.all fun i => same i x y) a where
  refl := List.all_eq_true.mpr fun i _ => (h i).refl
  symm b hb hab := List.all_eq_true.mpr fun i hi =>
    (h i).symm b hb (List.all_eq_true.mp hab i hi)
  trans b c hb hc hab hbc := List.all_eq_true.mpr fun i hi =>
    (h i).trans b c hb hc (List.all_eq_true.mp hab i hi) (List.all_eq_true.mp hbc i hi)

/-- A shortcut for values that are one and the same changes nothing about an equivalence. -/
theorem shortcut [BEq α] [LawfulBEq α] {a : α} (h : EquivalenceAt P same a) :
    EquivalenceAt P (fun x y => x == y || same x y) a := by
  have hshortcut : ∀ x y, same x x = true → ((x == y || same x y) = true ↔ same x y = true) := by
    intro x y hx
    rw [Bool.or_eq_true, beq_iff_eq]
    exact or_iff_right_of_imp fun heq => heq ▸ hx
  refine ⟨by rw [beq_self_eq_true, Bool.true_or], fun b hb hab => ?_, fun b c hb hc hab hbc => ?_⟩
  · rw [hshortcut a b h.refl] at hab
    rw [h.symm b hb hab, Bool.or_true]
  · rw [hshortcut a b h.refl] at hab
    rcases Bool.or_eq_true_iff.mp hbc with heq | hbc
    · rw [← eq_of_beq heq, hab, Bool.or_true]
    · rw [h.trans b c hb hc hab hbc, Bool.or_true]

/-- Optional values are compared by their values. -/
theorem option {x : Option α} (h : ∀ a ∈ x, EquivalenceAt P same a) :
    EquivalenceAt (fun y => ∀ b ∈ y, P b) (Source.sameOption same) x := by
  cases x with
  | none =>
      refine ⟨rfl, fun y _ hxy => ?_, fun y z _ _ hxy hyz => ?_⟩
      · cases y with
        | none => rfl
        | some b => cases hxy
      · cases y with
        | none => exact hyz
        | some b => cases hxy
  | some a =>
      have ha := h a rfl
      refine ⟨ha.refl, fun y hy hxy => ?_, fun y z hy hz hxy hyz => ?_⟩
      · cases y with
        | none => cases hxy
        | some b => exact ha.symm b (hy b rfl) hxy
      · cases y with
        | none => cases hxy
        | some b =>
            cases z with
            | none => cases hyz
            | some c => exact ha.trans b c (hy b rfl) (hz c rfl) hxy hyz

/-- Lists are compared element by element. -/
theorem list {xs : List α} (h : ∀ a ∈ xs, EquivalenceAt P same a) :
    EquivalenceAt (fun ys => ∀ b ∈ ys, P b) (Source.sameList same) xs := by
  induction xs with
  | nil =>
      refine ⟨rfl, fun ys _ hxy => ?_, fun ys zs _ _ hxy hyz => ?_⟩
      · cases ys with
        | nil => rfl
        | cons b ys => cases hxy
      · cases ys with
        | nil => exact hyz
        | cons b ys => cases hxy
  | cons a xs ih =>
      obtain ⟨ha, hxs⟩ := List.forall_mem_cons.mp h
      have ih := ih hxs
      refine ⟨by rw [Source.sameList, ha.refl, ih.refl, Bool.and_self],
        fun ys hys hxy => ?_, fun ys zs hys hzs hxy hyz => ?_⟩
      · cases ys with
        | nil => cases hxy
        | cons b ys =>
            obtain ⟨hb, hys⟩ := List.forall_mem_cons.mp hys
            obtain ⟨hhead, htail⟩ := Bool.and_eq_true_iff.mp hxy
            rw [Source.sameList, ha.symm b hb hhead, ih.symm ys hys htail, Bool.and_self]
      · cases ys with
        | nil => cases hxy
        | cons b ys =>
            cases zs with
            | nil => cases hyz
            | cons c zs =>
                obtain ⟨hb, hys⟩ := List.forall_mem_cons.mp hys
                obtain ⟨hc, hzs⟩ := List.forall_mem_cons.mp hzs
                obtain ⟨hhead, htail⟩ := Bool.and_eq_true_iff.mp hxy
                obtain ⟨hhead', htail'⟩ := Bool.and_eq_true_iff.mp hyz
                rw [Source.sameList, ha.trans b c hb hc hhead hhead',
                  ih.trans ys zs hys hzs htail htail', Bool.and_self]

end EquivalenceAt

end ApiSchema
