import ApiSchema.Assembly.Run
import ApiSchema.Proofs.Assembly.Board

/-!
What is collected from a full board.

`sequential` is the view that an assembly without workers would give: the handles of every list and
of the properties, made one after the other in the order of the document. Collecting a board whose
cells are all filled gives that view.
-/

namespace ApiSchema

namespace OrderedMap

variable {α : Type}

/-- A new key goes to the end. -/
theorem insert_of_not_mem {key : String} {map : OrderedMap α} (hkey : key ∉ keys map) (value : α) :
    insert key value map = map ++ [(key, value)] := by
  induction map with
  | nil => rfl
  | cons entry rest ih =>
      obtain ⟨key', value'⟩ := entry
      simp only [keys, List.map_cons, List.mem_cons, not_or] at hkey
      rw [insert, if_neg (Ne.symm hkey.1), ih hkey.2, List.cons_append]

end OrderedMap

namespace View

theorem setHandles_nil {v : View} {a : Applicator} (hempty : v.handles a = []) :
    v.setHandles [] a = v := by
  cases a <;> simp only [handles] at hempty <;> simp only [setHandles, ← hempty]

theorem handles_setHandles_of_ne (v : View) (handles : List Handle) {a b : Applicator}
    (hne : b ≠ a) : (v.setHandles handles a).handles b = v.handles b := by
  cases a <;> cases b <;> first | rfl | exact absurd rfl hne

theorem handles_scalars (id : SchemaId) (s : Source.Schema ChildId) (a : Applicator) :
    (scalars id s).handles a = [] := by
  cases a <;> rfl

end View

namespace Assembly

variable {t : Task} {b : Board}

/-- The handles of an applicator, in the order of its list. -/
def handlesOf (s : Source.Schema ChildId) (a : Applicator) : List Handle :=
  (s.elements a).map Handle.ofElement

/-- The view of a schema as it is made in sequence. -/
def sequential (id : SchemaId) (s : Source.Schema ChildId) : View :=
  { View.scalars id s with
    allOf := handlesOf s .allOf
    oneOf := handlesOf s .oneOf
    anyOf := handlesOf s .anyOf
    not := handlesOf s .not
    items := handlesOf s .items
    properties := s.entries.map fun e => (e.key, .ofEntry e) }

/-- A board with every cell filled with what belongs there. -/
structure Board.Full (b : Board) (t : Task) : Prop where
  slots : b.slots.size = t.slots.size
  cells : ∀ place, b.cell? place = (t.handle? place).map some

/-- A board that fits is full once each cell holds its handle. -/
theorem Board.Fits.full (hfits : b.Fits t) (hfilled : ∀ place handle,
    t.handle? place = some handle → b.cell? place = some (some handle)) : b.Full t := by
  refine ⟨hfits.slots, fun place => ?_⟩
  cases hhandle : t.handle? place with
  | some handle => exact hfilled place handle hhandle
  | none =>
      have hnone := hfits.cells place
      rw [hhandle] at hnone
      simpa using hnone

/-- Without slots and properties there is nothing to be filled. -/
theorem Board.full_empty (hexpected : t.expected = 0) : (Board.empty t).Full t := by
  have hnone : ∀ place, t.handle? place = none := by
    intro place
    simp only [Task.expected, Nat.add_eq_zero_iff, Array.size_eq_zero_iff] at hexpected
    cases place with
    | element slot index => simp [Task.handle?, hexpected.1]
    | property index => simp [Task.handle?, hexpected.2]
  refine ⟨by simp [Board.empty], fun place => ?_⟩
  rw [Board.cell?_empty, hnone place]
  rfl

namespace Board.Full

/-- The cells of the slots hold the handles of their elements. -/
theorem slots_eq (hfull : b.Full t) : b.slots.toList.map (·.cells) =
    t.slots.toList.map fun slot => slot.elements.map fun e => some (Handle.ofElement e) := by
  apply List.ext_getElem
  · simp [hfull.slots]
  · intro slot hcells hinput
    simp only [List.length_map, Array.length_toList] at hcells hinput
    simp only [List.getElem_map, Array.getElem_toList]
    apply Array.ext_getElem?
    intro index
    have hcell := hfull.cells (.element slot index)
    simp only [Board.cell?, Task.handle?, Array.getElem?_eq_getElem hcells,
      Array.getElem?_eq_getElem hinput, Option.bind_some] at hcell
    rw [hcell, Array.getElem?_map, Option.map_map]
    rfl

/-- The cells of the properties hold the handles of their entries. -/
theorem entries_eq (hfull : b.Full t) :
    b.entries.toList = t.entries.toList.map fun e => some (Handle.ofEntry e) := by
  apply List.ext_getElem?
  intro index
  have hcell := hfull.cells (.property index)
  simp only [Board.cell?, Task.handle?, Option.map_map] at hcell
  rw [Array.getElem?_toList, List.getElem?_map, Array.getElem?_toList]
  exact hcell

end Board.Full

/-- A slot with all its cells filled gives the handles in order. -/
theorem collectSlot_eq (slot : Slot) :
    collectSlot slot (slot.elements.map fun e => some (Handle.ofElement e)) =
      .ok (slot.elements.toList.map Handle.ofElement) := by
  have hhandles : (slot.elements.map fun e => some (Handle.ofElement e)).toList.filterMap id =
      slot.elements.toList.map Handle.ofElement := by
    rw [Array.toList_map, List.filterMap_map]
    exact congrFun List.filterMap_eq_map' _
  simp only [collectSlot, hhandles, List.length_map, Array.length_toList, Array.size_map, if_true]

def setSlot (view : View) (slot : Slot) : View :=
  view.setHandles (slot.elements.toList.map Handle.ofElement) slot.applicator

theorem collectSlots_eq (slots : List Slot) (cells : List SlotCells) (view : View)
    (hfull : cells.map (·.cells) =
      slots.map fun slot => slot.elements.map fun e => some (Handle.ofElement e)) :
    collectSlots view (slots.zip cells) = .ok (slots.foldl setSlot view) := by
  induction slots generalizing cells view with
  | nil => rfl
  | cons slot rest ih =>
      cases cells with
      | nil => cases hfull
      | cons first others =>
          rw [List.map_cons, List.map_cons, List.cons.injEq] at hfull
          rw [List.zip_cons_cons, collectSlots, hfull.1, collectSlot_eq]
          exact ih others _ hfull.2

/-- Distinct properties with filled cells are collected in order. -/
theorem collectEntries_eq (entries : List (Source.Entry ChildId)) (handles : OrderedMap Handle)
    (hkeys : (OrderedMap.keys handles ++ entries.map (·.key)).Nodup) :
    collectEntries handles (entries.zip (entries.map fun e => some (Handle.ofEntry e))) =
      .ok (handles ++ entries.map fun e => (e.key, .ofEntry e)) := by
  induction entries generalizing handles with
  | nil => simp [collectEntries]
  | cons e rest ih =>
      have hkey : e.key ∉ OrderedMap.keys handles := by
        intro hmem
        exact (List.nodup_append.mp hkeys).2.2 _ hmem _ List.mem_cons_self rfl
      rw [List.map_cons, List.zip_cons_cons, collectEntries,
        OrderedMap.insert_of_not_mem hkey, ih]
      · rw [List.append_assoc]
        rfl
      · simpa [OrderedMap.keys] using hkeys

/-- The slot of an applicator, if its list is not empty. -/
def slotOf? (s : Source.Schema ChildId) (a : Applicator) : Option Slot :=
  match s.elements a with
  | [] => none
  | elements => some ⟨a, elements.toArray⟩

theorem foldl_setSlot (s : Source.Schema ChildId) (applicators : List Applicator)
    (hdistinct : applicators.Nodup) (view : View)
    (hempty : ∀ a ∈ applicators, view.handles a = []) :
    (applicators.filterMap (slotOf? s)).foldl setSlot view =
      applicators.foldl (fun view a => view.setHandles (handlesOf s a) a) view := by
  induction applicators generalizing view with
  | nil => rfl
  | cons a rest ih =>
      rw [List.nodup_cons] at hdistinct
      have hrest : ∀ handles, ∀ b ∈ rest, (view.setHandles handles a).handles b = [] := by
        intro handles b hb
        have hne : b ≠ a := fun heq => hdistinct.1 (heq ▸ hb)
        rw [View.handles_setHandles_of_ne view handles hne]
        exact hempty b (List.mem_cons_of_mem a hb)
      rw [List.foldl_cons, ← ih hdistinct.2 _ (hrest _)]
      cases helements : s.elements a with
      | nil =>
          have hslot : slotOf? s a = none := by rw [slotOf?, helements]
          rw [List.filterMap_cons_none hslot, handlesOf, helements, List.map_nil,
            View.setHandles_nil (hempty a List.mem_cons_self)]
      | cons e es =>
          have hslot : slotOf? s a = some ⟨a, (e :: es).toArray⟩ := by rw [slotOf?, helements]
          rw [List.filterMap_cons_some hslot, List.foldl_cons, handlesOf, helements]
          rfl

/-- The slots of a schema give the handles of all its lists. -/
theorem foldl_slots (id : SchemaId) (s : Source.Schema ChildId) :
    (Task.ofSource s).slots.toList.foldl setSlot (View.scalars id s) =
      { sequential id s with properties := [] } :=
  foldl_setSlot s Applicator.all (by decide) (View.scalars id s)
    fun a _ => View.handles_scalars id s a

/-- There is a unit for each nested schema. -/
theorem units_ofSource (s : Source.Schema ChildId) : (Task.ofSource s).units =
    (Applicator.all.map fun a => (s.elements a).length).sum + s.entries.length := by
  have hlengths : ∀ applicators : List Applicator,
      ((applicators.filterMap (slotOf? s)).map (·.elements.size)).foldr (· + ·) 0 =
        (applicators.map fun a => (s.elements a).length).sum := by
    intro applicators
    induction applicators with
    | nil => rfl
    | cons a rest ih =>
        rw [List.map_cons, List.sum_cons, ← ih]
        cases helements : s.elements a with
        | nil =>
            have hslot : slotOf? s a = none := by rw [slotOf?, helements]
            rw [List.filterMap_cons_none hslot, List.length_nil, Nat.zero_add]
        | cons e es =>
            have hslot : slotOf? s a = some ⟨a, (e :: es).toArray⟩ := by rw [slotOf?, helements]
            rw [List.filterMap_cons_some hslot]
            rfl
  exact congrArg (· + s.entries.length) (hlengths Applicator.all)

/-- A full board is collected into the view that is made in sequence. -/
theorem collect_eq (id : SchemaId) {s : Source.Schema ChildId}
    (hkeys : (s.entries.map (·.key)).Nodup) (hfull : b.Full (Task.ofSource s)) :
    collect (Task.ofSource s) b (View.scalars id s) = .ok (sequential id s) := by
  have hslots := collectSlots_eq (Task.ofSource s).slots.toList b.slots.toList
    (View.scalars id s) hfull.slots_eq
  have hentries := collectEntries_eq s.entries [] hkeys
  unfold collect
  rw [hslots, foldl_slots, hfull.entries_eq]
  simp only [Task.ofSource, bind, Except.bind, hentries]
  rfl

/-- Properties with distinct keys are not refused. -/
theorem firstRepeated?_eq_none {α : Type} (seen : List String) (entries : List (Source.Entry α))
    (hkeys : (seen ++ entries.map (·.key)).Nodup) : firstRepeated? seen entries = none := by
  induction entries generalizing seen with
  | nil => rfl
  | cons e rest ih =>
      have hkey : e.key ∉ seen := by
        intro hmem
        exact (List.nodup_append.mp hkeys).2.2 _ hmem _ List.mem_cons_self rfl
      rw [firstRepeated?, if_neg hkey]
      apply ih
      rw [List.cons_append, List.perm_middle.symm.nodup_iff]
      exact hkeys

end Assembly
end ApiSchema
