import ApiSchema.Proofs.Assembly.Refinement
import ApiSchema.Proofs.Except
import ApiSchema.Proofs.OrderedMap

/-!
The handles of a view are those of its source.

Whatever becomes of a run, a cell of the board is only ever filled with the handle that belongs
there. So every handle that is collected into a view stands for an element or a property of the
schema that the view was made from.
-/

namespace ApiSchema

namespace Pool

variable {Local Shared : Type} {p : Plan Local Shared} {around : Surroundings}
  {start s : State Local Shared} {h : History Local}

/-- What every access of the units to the shared memory keeps, a run keeps. -/
theorem Plan.Run.shared (inv : Shared → Prop) (hstart : inv start.common.shared)
    (haccess : ∀ state act, p.job.next state = .access act → ∀ shared, inv shared →
      inv (act shared).2) (hrun : p.Run around start h s) : inv s.common.shared := by
  induction hrun with
  | start => exact hstart
  | @step _ s _ label _ _ hnext ih =>
      cases step_cases hnext with
      | tick _ | refuse _ _ _ | outside _ | bystander _ _ _ => exact ih
      | caller hcaller =>
          generalize s.caller = caller at hcaller
          cases hcaller <;> exact ih
      | worker index here hworker =>
          cases hworker with
          | access unit state act hact => exact haccess state act hact _ ih
          | _ => exact ih

/-- What every step of a worker keeps of that worker, a run keeps of all of them. -/
theorem Plan.Run.team {latch : Latch} {shared : Shared} (inv : Worker Local → Prop)
    (hchecking : inv .checking)
    (hstep : ∀ c me choice worker c' worker', WorkerStep p c me choice worker c' worker' →
      inv worker → inv worker')
    (hrun : p.Run around (p.initial latch shared) h s) : ∀ worker ∈ s.team, inv worker := by
  induction hrun with
  | start => simp [Plan.initial]
  | @step _ s _ label _ _ hnext ih =>
      cases step_cases hnext with
      | tick _ | refuse _ _ _ | outside _ | bystander _ _ _ => exact ih
      | caller hcaller =>
          generalize s.caller = caller at hcaller
          cases hcaller with
          | spawn _ =>
              intro worker hworker
              rcases Array.mem_push.mp hworker with hold | rfl
              · exact ih worker hold
              · exact hchecking
          | _ => exact ih
      | worker index here hworker =>
          intro other hother
          obtain ⟨i, hi⟩ := Array.mem_iff_getElem?.mp hother
          rcases worker_cases hi with ⟨_, rfl⟩ | ⟨_, hi⟩
          · exact hstep _ _ _ _ _ _ hworker (ih _ (Array.mem_of_getElem? here))
          · exact ih other (Array.mem_of_getElem? hi)

end Pool

namespace View

theorem handles_setHandles (v : View) (handles : List Handle) (a : Applicator) :
    (v.setHandles handles a).handles a = handles := by
  cases a <;> rfl

theorem source_setHandles (v : View) (handles : List Handle) (a : Applicator) :
    (v.setHandles handles a).source = v.source := by
  cases a <;> rfl

end View

namespace Assembly

variable {t : Task} {b : Board} {place : Place} {handle : Handle}

/-- A cell that is full, or that is not there, is not filled. -/
theorem Board.fillElement_eq_none {slot index : Nat}
    (hcell : b.cell? (.element slot index) ≠ some none) (handle : Handle) :
    b.fillElement slot index handle = none := by
  cases hslot : b.slots[slot]? with
  | none => simp only [fillElement, hslot]
  | some cells =>
      have hindex : cells.cells[index]? ≠ some none := by
        simpa [cell?, hslot] using hcell
      simp only [fillElement, hslot]

theorem Board.fillEntry_eq_none {index : Nat} (hcell : b.cell? (.property index) ≠ some none)
    (handle : Handle) : b.fillEntry index handle = none := by
  unfold fillEntry
  split
  next h => exact absurd h hcell
  next => rfl

/-- A unit that has no handle, or no empty cell, leaves the board alone. -/
theorem Task.fill_unchanged (h : t.handle? place = none ∨ b.cell? place ≠ some none) :
    (t.fill b place).2 = b := by
  cases place with
  | element slot index =>
      cases hslot : t.slots[slot]? with
      | none => simp only [fill, hslot, filledTwice]
      | some input =>
          cases helement : input.elements[index]? with
          | none => simp only [fill, hslot, helement, filledTwice]
          | some element =>
              have hcell := h.resolve_left (by simp [handle?, hslot, helement])
              simp only [fill, hslot, helement, Board.fillElement_eq_none hcell]
  | property index =>
      cases hentry : t.entries[index]? with
      | none => simp only [fill, hentry, filledTwice]
      | some entry =>
          have hcell := h.resolve_left (by simp [handle?, hentry])
          simp only [fill, hentry, Board.fillEntry_eq_none hcell]

/-- A unit fills its cell with the handle that belongs there, or leaves the board alone. -/
theorem Task.fill_cases (t : Task) (b : Board) (place : Place) : (t.fill b place).2 = b ∨
    ∃ handle, t.handle? place = some handle ∧ b.Fill place handle (t.fill b place).2 := by
  cases hhandle : t.handle? place with
  | none => exact Or.inl (Task.fill_unchanged (Or.inl hhandle))
  | some handle =>
      by_cases hempty : b.cell? place = some none
      · obtain ⟨b', hfill, hspec⟩ := t.fill_spec hhandle hempty
        rw [hfill]
        exact Or.inr ⟨handle, rfl, hspec⟩
      · exact Or.inl (Task.fill_unchanged (Or.inr hempty))

/-- Only a slot that there is can be counted down. -/
theorem Board.countDown_cases (b : Board) (slot : Nat) :
    (b.countDown slot).2 = b ∨ b.CountDown slot (b.countDown slot).2 := by
  by_cases hslot : slot < b.slots.size
  · obtain ⟨b', hcount, hspec⟩ := b.countDown_spec hslot
    rw [hcount]
    exact Or.inr hspec
  · have hnone : b.slots[slot]? = none := Array.getElem?_eq_none (Nat.le_of_not_lt hslot)
    exact Or.inl (by simp only [Board.countDown, hnone])

section Interleaving

variable {workers : Nat} {limit : Option Duration} {h : Pool.History UnitState}
  {s : Pool.State UnitState Board}

/-- What filling a cell and counting down a slot keep of the board, an interleaving keeps. -/
theorem Task.Interleaving.board (inv : Board → Prop) (hempty : inv (Board.empty t))
    (hfill : ∀ b b' place handle, t.handle? place = some handle → b.Fill place handle b' →
      inv b → inv b')
    (hcount : ∀ b b' slot, b.CountDown slot b' → inv b → inv b')
    (hinter : t.Interleaving workers limit h s) : inv s.common.shared := by
  refine Pool.Plan.Run.shared inv hempty ?_ hinter
  intro state act hact b hinv
  cases state with
  | filling place =>
      cases hact
      rcases t.fill_cases b place with hsame | ⟨handle, hhandle, hspec⟩
      · exact hsame.symm ▸ hinv
      · exact hfill b _ place handle hhandle hspec hinv
  | counting slot =>
      cases hact
      rcases b.countDown_cases slot with hsame | hspec
      · exact hsame.symm ▸ hinv
      · exact hcount b _ slot hspec hinv
  | reporting kind => cases hact
  | ending outcome => cases hact

/-- In every interleaving, filled cells hold what belongs there. -/
theorem Task.Interleaving.holds (hinter : t.Interleaving workers limit h s) :
    s.common.shared.Holds t :=
  hinter.board (fun b => b.Holds t) (Board.holds_empty t)
    (fun _ _ _ _ hhandle hspec hholds => hholds.of_fill hhandle hspec)
    fun _ _ _ hspec hholds => hholds.of_countDown hspec

/-- In every interleaving, the board has the cells that the task needs. -/
theorem Task.Interleaving.fits (hinter : t.Interleaving workers limit h s) :
    s.common.shared.Fits t :=
  hinter.board (fun b => b.Fits t) (Board.fits_empty t)
    (fun _ _ _ _ hhandle hspec hfits => hfits.of_fill hhandle hspec)
    fun _ _ _ hspec hfits => hfits.of_countDown hspec

end Interleaving

/-- The handles collected from a slot are those in its cells. -/
theorem mem_of_collectSlot {slot : Slot} {cells : Array (Option Handle)} {handles : List Handle}
    (h : collectSlot slot cells = .ok handles) :
    ∀ handle ∈ handles, some handle ∈ cells.toList := by
  unfold collectSlot at h
  simp only at h
  split at h
  · cases h
    intro handle hmem
    obtain ⟨cell, hcell, rfl⟩ := List.mem_filterMap.mp hmem
    exact hcell
  · cases h

/-- What is known of the handles in the cells is known of those that are collected. -/
theorem mem_of_collectSlots (belongs : Applicator → Handle → Prop)
    {slots : List (Slot × SlotCells)} {view view' : View}
    (hslots : ∀ pair ∈ slots, ∀ handle, some handle ∈ pair.2.cells.toList →
      belongs pair.1.applicator handle)
    (hview : ∀ a, ∀ handle ∈ view.handles a, belongs a handle)
    (h : collectSlots view slots = .ok view') :
    view'.source = view.source ∧ ∀ a, ∀ handle ∈ view'.handles a, belongs a handle := by
  induction slots generalizing view with
  | nil =>
      cases h
      exact ⟨rfl, hview⟩
  | cons pair rest ih =>
      obtain ⟨slot, cells⟩ := pair
      obtain ⟨hfirst, hrest⟩ := List.forall_mem_cons.mp hslots
      obtain ⟨handles, hcollect, h⟩ := bind_ok h
      have hnext : ∀ a, ∀ handle ∈ (view.setHandles handles slot.applicator).handles a,
          belongs a handle := by
        intro a handle hmem
        by_cases ha : a = slot.applicator
        · subst ha
          rw [View.handles_setHandles] at hmem
          exact hfirst handle (mem_of_collectSlot hcollect handle hmem)
        · rw [View.handles_setHandles_of_ne view handles ha] at hmem
          exact hview a handle hmem
      obtain ⟨hsource, hhandles⟩ := ih hrest hnext h
      exact ⟨hsource.trans (View.source_setHandles view handles slot.applicator), hhandles⟩

/-- What is known of the handles of properties is known of those that are collected. -/
theorem mem_of_collectEntries (belongs : Handle → Prop)
    {entries : List (Source.Entry ChildId × Option Handle)} {handles handles' : OrderedMap Handle}
    (hentries : ∀ pair ∈ entries, ∀ handle, pair.2 = some handle → belongs handle)
    (hhandles : ∀ entry ∈ handles, belongs entry.2)
    (h : collectEntries handles entries = .ok handles') : ∀ entry ∈ handles', belongs entry.2 := by
  induction entries generalizing handles with
  | nil =>
      cases h
      exact hhandles
  | cons pair rest ih =>
      obtain ⟨hfirst, hrest⟩ := List.forall_mem_cons.mp hentries
      obtain ⟨e, cell⟩ := pair
      cases cell with
      | none => cases h
      | some handle =>
          refine ih hrest (fun entry hmem => ?_) h
          rcases OrderedMap.mem_insert hmem with hold | rfl
          · exact hhandles entry hold
          · exact hfirst handle rfl

/-- A view leads on to nothing but the nested schemas of a schema. -/
structure Mirrors (view : View) (s : Source.Schema ChildId) : Prop where
  elements : ∀ a, ∀ handle ∈ view.handles a, ∃ e ∈ s.elements a, handle = .ofElement e
  properties : ∀ entry ∈ view.properties, ∃ e ∈ s.entries, entry.2 = .ofEntry e

/-- The slots of a schema hold the elements of its lists. -/
theorem elements_of_slot {s : Source.Schema ChildId} {slot : Slot}
    (hslot : slot ∈ (Task.ofSource s).slots.toList) :
    slot.elements.toList = s.elements slot.applicator := by
  simp only [Task.ofSource, List.mem_filterMap] at hslot
  obtain ⟨a, _, hslot⟩ := hslot
  split at hslot
  · cases hslot
  · cases hslot
    rfl

/-- A cell that is filled holds the handle of its element. -/
theorem element_of_cell {pair : Slot × SlotCells} (hholds : b.Holds t)
    (hpair : pair ∈ t.slots.toList.zip b.slots.toList) {handle : Handle}
    (hcell : some handle ∈ pair.2.cells.toList) :
    ∃ e ∈ pair.1.elements.toList, handle = .ofElement e := by
  obtain ⟨slot, hslot⟩ := List.mem_iff_getElem?.mp hpair
  obtain ⟨hinput, hcells⟩ := List.getElem?_zip_eq_some.mp hslot
  obtain ⟨index, hindex⟩ := List.mem_iff_getElem?.mp hcell
  rw [Array.getElem?_toList] at hinput hcells hindex
  have hhandle := hholds (.element slot index) handle (by simp [Board.cell?, hcells, hindex])
  simp only [Task.handle?, hinput, Option.bind_some, Option.map_eq_some_iff] at hhandle
  obtain ⟨e, he, rfl⟩ := hhandle
  exact ⟨e, List.mem_of_getElem? (by rw [Array.getElem?_toList, he]), rfl⟩

theorem entry_of_cell {pair : Source.Entry ChildId × Option Handle} (hholds : b.Holds t)
    (hpair : pair ∈ t.entries.toList.zip b.entries.toList) {handle : Handle}
    (hcell : pair.2 = some handle) : ∃ e ∈ t.entries.toList, handle = .ofEntry e := by
  obtain ⟨index, hindex⟩ := List.mem_iff_getElem?.mp hpair
  obtain ⟨hinput, hcells⟩ := List.getElem?_zip_eq_some.mp hindex
  rw [Array.getElem?_toList] at hinput hcells
  have hhandle := hholds (.property index) handle (by rw [Board.cell?, hcells, hcell])
  simp only [Task.handle?, hinput, Option.map_some, Option.some.injEq] at hhandle
  exact ⟨pair.1, List.mem_of_getElem? (by rw [Array.getElem?_toList, hinput]), hhandle.symm⟩

/-- What is collected from a board on which filled cells hold what belongs there. -/
theorem mirrors_of_collect {s : Source.Schema ChildId} {id : SchemaId} {view : View}
    (hholds : b.Holds (Task.ofSource s))
    (h : collect (Task.ofSource s) b (View.scalars id s) = .ok view) :
    view.source = id ∧ Mirrors view s := by
  have hcells : ∀ pair ∈ (Task.ofSource s).slots.toList.zip b.slots.toList, ∀ handle,
      some handle ∈ pair.2.cells.toList →
        ∃ e ∈ s.elements pair.1.applicator, handle = .ofElement e := by
    intro pair hpair handle hcell
    rw [← elements_of_slot (List.of_mem_zip hpair).1]
    exact element_of_cell hholds hpair hcell
  have hnone : ∀ a, ∀ handle ∈ (View.scalars id s).handles a,
      ∃ e ∈ s.elements a, handle = .ofElement e := by
    intro a handle hmem
    rw [View.handles_scalars] at hmem
    cases hmem
  have hentry : ∀ pair ∈ (Task.ofSource s).entries.toList.zip b.entries.toList, ∀ handle,
      pair.2 = some handle → ∃ e ∈ s.entries, handle = .ofEntry e := by
    intro pair hpair handle hcell
    obtain ⟨e, he, hhandle⟩ := entry_of_cell hholds hpair hcell
    exact ⟨e, by simpa [Task.ofSource] using he, hhandle⟩
  obtain ⟨view', hslots, h⟩ := bind_ok h
  obtain ⟨properties, hentries, h⟩ := bind_ok h
  cases h
  obtain ⟨hsource, hhandles⟩ := mem_of_collectSlots
    (fun a handle => ∃ e ∈ s.elements a, handle = .ofElement e) hcells hnone hslots
  have hproperties := mem_of_collectEntries (fun handle => ∃ e ∈ s.entries, handle = .ofEntry e)
    hentry (List.forall_mem_nil _) hentries
  have hsame : { view' with properties := properties }.handles = view'.handles := by
    funext a
    cases a <;> rfl
  exact ⟨hsource, hsame ▸ hhandles, hproperties⟩

/-- Whatever becomes of an assembly, a view that it gives leads on to nothing but the nested schemas
of its source. -/
theorem Assembles.mirrors {workers : Nat} {limit : Option Duration} {id : SchemaId}
    {s : Source.Schema ChildId} {view : View}
    (h : Assembles workers limit id s (.ok view)) : view.source = id ∧ Mirrors view s := by
  generalize hresult : (Except.ok view : Except Failure View) = result at h
  cases h with
  | refused _ => cases hresult
  | failed _ _ _ _ => cases hresult
  | idle _ _ => exact mirrors_of_collect (Board.holds_empty _) hresult.symm
  | collected _ _ inter _ => exact mirrors_of_collect inter.interleaving.holds hresult.symm

end Assembly
end ApiSchema
