import ApiSchema.Proofs.Assembly.Refinement
import ApiSchema.Proofs.Pool.Causes

/-!
Repeated properties are refused, and nothing else is refused in that way.

`firstRepeated?` finds the property with the least number whose key occurs before it. An assembly
looks for it before anything runs. The units, the latch and the collection of the board have
failures of other kinds only, whatever the number of units, so the answer is told from the keys
alone.
-/

namespace ApiSchema
namespace Assembly

open Pool
open Source (Schema Entry)

variable {α β : Type} {workers : Nat} {limit : Option Duration} {id : SchemaId}
  {source : Schema ChildId} {h : History UnitState} {result : Except Failure View} {key : String}
  {origin : Pointer} {t : Task}

/-- Two entries share a key. -/
def Repeated (entries : List (Entry α)) : Prop :=
  ∃ (i j : Nat) (e e' : Entry α),
    i < j ∧ entries[i]? = some e ∧ entries[j]? = some e' ∧ e.key = e'.key

/-- The entry with the least number whose key occurs before it. -/
structure FirstRepeat (entries : List (Entry α)) (n : Nat) (e : Entry α) : Prop where
  here : entries[n]? = some e
  again : e.key ∈ (entries.take n).map (·.key)
  /-- No key before it occurs twice. -/
  first : ((entries.take n).map (·.key)).Nodup

theorem firstRepeated?_eq_some_iff {entries : List (Entry α)} {e : Entry α} {seen : List String}
    (hseen : seen.Nodup) : firstRepeated? seen entries = some e ↔
      ∃ n : Nat, entries[n]? = some e ∧ e.key ∈ seen ++ (entries.take n).map (·.key) ∧
        (seen ++ (entries.take n).map (·.key)).Nodup := by
  induction entries generalizing seen with
  | nil => simp [firstRepeated?]
  | cons x rest ih =>
      have hmoved : ∀ n : Nat, (seen ++ ((x :: rest).take (n + 1)).map (·.key)).Perm
          (x.key :: seen ++ (rest.take n).map (·.key)) := by
        intro n
        rw [List.take_succ_cons, List.map_cons]
        exact List.perm_middle
      by_cases hx : x.key ∈ seen
      · rw [firstRepeated?, if_pos hx]
        constructor
        · rintro ⟨⟩
          exact ⟨0, rfl, by simpa using hx, by simpa using hseen⟩
        · rintro ⟨n, hn, _, hnodup⟩
          cases n with
          | zero => exact hn
          | succ n =>
              rw [(hmoved n).nodup_iff, List.cons_append, List.nodup_cons] at hnodup
              exact absurd (List.mem_append_left _ hx) hnodup.1
      · rw [firstRepeated?, if_neg hx, ih (List.nodup_cons.mpr ⟨hx, hseen⟩)]
        constructor
        · rintro ⟨n, hn, hmem, hnodup⟩
          exact ⟨n + 1, hn, (hmoved n).mem_iff.mpr hmem, (hmoved n).nodup_iff.mpr hnodup⟩
        · rintro ⟨n, hn, hmem, hnodup⟩
          cases n with
          | zero =>
              cases hn
              exact absurd (by simpa using hmem) hx
          | succ n => exact ⟨n, hn, (hmoved n).mem_iff.mp hmem, (hmoved n).nodup_iff.mp hnodup⟩

/-- What is found is the first entry whose key occurs before it. -/
theorem firstRepeated?_iff {entries : List (Entry α)} {e : Entry α} :
    firstRepeated? [] entries = some e ↔ ∃ n, FirstRepeat entries n e := by
  rw [firstRepeated?_eq_some_iff List.nodup_nil]
  exact exists_congr fun n => ⟨fun ⟨here, again, first⟩ => ⟨here, again, first⟩,
    fun h => ⟨h.here, h.again, h.first⟩⟩

/-- What is reported of it is its key and the place of that. -/
theorem reports_iff {entries : List (Entry α)} :
    (∃ e, firstRepeated? [] entries = some e ∧ e.key = key ∧ e.keyAt = origin) ↔
      ∃ n e, FirstRepeat entries n e ∧ e.key = key ∧ e.keyAt = origin := by
  simp only [firstRepeated?_iff]
  exact ⟨fun ⟨e, ⟨n, hn⟩, hreport⟩ => ⟨n, e, hn, hreport⟩,
    fun ⟨n, e, hn, hreport⟩ => ⟨e, ⟨n, hn⟩, hreport⟩⟩

/-- If nothing is found, no key occurs twice. -/
theorem nodup_of_firstRepeated? {entries : List (Entry α)} {seen : List String}
    (hseen : seen.Nodup) (h : firstRepeated? seen entries = none) :
    (seen ++ entries.map (·.key)).Nodup := by
  induction entries generalizing seen with
  | nil => simpa using hseen
  | cons x rest ih =>
      rw [firstRepeated?] at h
      split at h
      · cases h
      next hx =>
        rw [List.map_cons, List.perm_middle.nodup_iff]
        exact ih (List.nodup_cons.mpr ⟨hx, hseen⟩) h

theorem repeated_iff_not_nodup {entries : List (Entry α)} :
    Repeated entries ↔ ¬ (entries.map (·.key)).Nodup := by
  rw [List.nodup_iff_getElem?_ne_getElem?]
  constructor
  · rintro ⟨i, j, e, e', hij, hi, hj, hkey⟩ hdistinct
    have hlt := (List.getElem?_eq_some_iff.mp hj).1
    refine hdistinct i j hij (by simpa using hlt) ?_
    rw [List.getElem?_map, List.getElem?_map, hi, hj, Option.map_some, Option.map_some, hkey]
  · intro hrepeated
    by_contra hnone
    refine hrepeated fun i j hij hj heq => hnone ?_
    rw [List.length_map] at hj
    rw [List.getElem?_map, List.getElem?_map, List.getElem?_eq_getElem hj,
      List.getElem?_eq_getElem (Nat.lt_trans hij hj)] at heq
    exact ⟨i, j, _, _, hij, List.getElem?_eq_getElem _, List.getElem?_eq_getElem hj,
      Option.some.inj heq⟩

/-- Entries share keys if and only if there is a first one that repeats a key. -/
theorem repeated_iff {entries : List (Entry α)} :
    Repeated entries ↔ ∃ n e, FirstRepeat entries n e := by
  constructor
  · intro hrepeated
    cases hfound : firstRepeated? [] entries with
    | some e =>
        obtain ⟨n, hn⟩ := firstRepeated?_iff.mp hfound
        exact ⟨n, e, hn⟩
    | none =>
        exact absurd (nodup_of_firstRepeated? List.nodup_nil hfound)
          (repeated_iff_not_nodup.mp hrepeated)
  · rintro ⟨n, e, here, again, _⟩
    obtain ⟨e', he', hkey⟩ := List.mem_map.mp again
    obtain ⟨i, hi⟩ := List.mem_iff_getElem?.mp he'
    rw [List.getElem?_take] at hi
    split at hi
    next hlt => exact ⟨i, n, e', e, hlt, hi, here, hkey⟩
    next => cases hi

/-- The first repeated key depends on nothing but the keys. -/
theorem FirstRepeat.transfer {entries : List (Entry α)} {entries' : List (Entry β)} {n : Nat}
    {e : Entry α} (h : FirstRepeat entries n e)
    (hsame : entries'.map (fun e => (e.key, e.keyAt)) = entries.map fun e => (e.key, e.keyAt)) :
    ∃ e', FirstRepeat entries' n e' ∧ e'.key = e.key ∧ e'.keyAt = e.keyAt := by
  have hkeys : entries'.map (·.key) = entries.map (·.key) := by
    simpa [Function.comp_def] using congrArg (List.map Prod.fst) hsame
  have hbefore : (entries'.take n).map (·.key) = (entries.take n).map (·.key) := by
    rw [List.map_take, List.map_take, hkeys]
  have hhere := congrArg (·[n]?) hsame
  simp only [List.getElem?_map, h.here, Option.map_some] at hhere
  obtain ⟨e', he', heq⟩ := Option.map_eq_some_iff.mp hhere
  obtain ⟨hkey, hkeyAt⟩ := Prod.mk.inj heq
  exact ⟨e', ⟨he', by rw [hbefore, hkey]; exact h.again, hbefore ▸ h.first⟩, hkey, hkeyAt⟩

/-- A unit that has not come to its end has nothing to fail with, and one that has may say that its
cell was full. -/
def Innocent (state : UnitState) : Prop :=
  ∀ outcome, state = .ending outcome → ∀ failure, outcome.failure? = some failure →
    ∃ text, failure = .internal text

theorem innocent_success : Innocent (.ending .success) := by
  intro outcome heq failure hfailure
  cases heq
  cases hfailure

theorem innocent_filledTwice (what : String) : Innocent (filledTwice what) := by
  intro outcome heq failure hfailure
  cases heq
  exact ⟨_, (Option.some.inj hfailure).symm⟩

theorem Task.innocent_fill (t : Task) (b : Board) (place : Place) :
    Innocent (t.fill b place).1 := by
  unfold Task.fill
  repeat' split
  all_goals first | exact innocent_filledTwice _ | exact nofun

/-- What can be recorded in the latch of an assembly. -/
def Recordable (failure : Failure) : Prop :=
  (∃ text, failure = .internal text) ∨ ∃ text, failure = .spawn text

theorem Task.job_confined (t : Task) : t.job.Confined Innocent Recordable := by
  refine ⟨fun unit => nofun, fun state act hnext _ b => ?_, fun state call resume hnext _ => ?_,
    fun state state' hnext => absurd hnext (t.next_ne_untilCancelled state state'),
    fun state outcome hnext hinv => ?_⟩
  · cases state with
    | filling place =>
        cases hnext
        exact t.innocent_fill b place
    | counting slot =>
        cases hnext
        show Innocent (if (b.countDown slot).1 = 1 then .reporting .slot else .ending .success)
        split
        · exact nofun
        · exact innocent_success
    | _ => cases hnext
  · cases state with
    | reporting kind =>
        cases hnext
        exact ⟨trivial, fun _ => innocent_success⟩
    | _ => cases hnext
  · cases state with
    | ending outcome' =>
        cases hnext
        exact fun failure hfailure => Or.inl (hinv outcome rfl failure hfailure)
    | _ => cases hnext

/-- A run fails because a cell was full, because a worker could not be started, or because it ran
past its limit. -/
theorem Task.Interleaving.error_cases {s : State UnitState Board}
    (hinter : t.Interleaving workers limit h s) (hunits : 1 ≤ t.units) {failure : Failure}
    (hresult : s.result? = some (.error failure)) :
    Recordable failure ∨ ∃ elapsed bound, failure = .timeout elapsed bound := by
  have hcaller : s.caller.result? = some (.error failure) := by
    rw [caller_of_result? hresult]
    rfl
  rcases Plan.Run.justified hunits (fun _ => id) hinter hcaller with
    hkept | ⟨elapsed, bound, _, htimeout⟩
  · have hconfined := Plan.Run.confined t.job_confined (fun _ => False.elim)
      (fun text _ => Or.inr ⟨text, rfl⟩) nofun hinter
    exact Or.inl (hconfined.latch failure hkept)
  · exact Or.inr ⟨elapsed, bound, htimeout⟩

theorem collectSlots_ne_duplicate {view : View} {slots : List (Slot × SlotCells)} :
    collectSlots view slots ≠ .error (.duplicateProperty key origin) := by
  induction slots generalizing view with
  | nil =>
      intro hsame
      cases hsame
  | cons pair rest ih =>
      obtain ⟨slot, cells⟩ := pair
      rw [collectSlots]
      cases hslot : collectSlot slot cells.cells with
      | ok handles => exact ih
      | error failure =>
          unfold collectSlot at hslot
          simp only at hslot
          split at hslot
          · cases hslot
          · cases hslot
            intro hsame
            cases hsame

theorem collectEntries_ne_duplicate {handles : OrderedMap Handle}
    {entries : List (Entry ChildId × Option Handle)} :
    collectEntries handles entries ≠ .error (.duplicateProperty key origin) := by
  induction entries generalizing handles with
  | nil => exact nofun
  | cons pair rest ih =>
      obtain ⟨e, cell⟩ := pair
      cases cell with
      | none => exact nofun
      | some handle => exact ih

/-- Collecting a board finds no repeated keys. -/
theorem collect_ne_duplicate {b : Board} {view : View} :
    collect t b view ≠ .error (.duplicateProperty key origin) := by
  unfold collect
  cases hslots : collectSlots view (t.slots.toList.zip b.slots.toList) with
  | error failure =>
      rintro ⟨⟩
      exact collectSlots_ne_duplicate hslots
  | ok view' =>
      simp only [bind, Except.bind]
      cases hentries : collectEntries [] (t.entries.toList.zip b.entries.toList) with
      | error failure =>
          rintro ⟨⟩
          exact collectEntries_ne_duplicate hentries
      | ok properties => exact nofun

/-- What the assembly of a schema can come to, with what its units have done by then. -/
inductive Performs (workers : Nat) (limit : Option Duration) (id : SchemaId)
    (source : Schema ChildId) : History UnitState → Except Failure View → Prop
  | refused {e : Entry ChildId} (repeated : firstRepeated? [] source.entries = some e) :
      Performs workers limit id source [] (.error (.duplicateProperty e.key e.keyAt))
  | idle (distinct : firstRepeated? [] source.entries = none)
      (unneeded : (Task.ofSource source).expected = 0) :
      Performs workers limit id source []
        (collect (Task.ofSource source) (Board.empty (Task.ofSource source))
          (View.scalars id source))
  | failed (distinct : firstRepeated? [] source.entries = none)
      (needed : (Task.ofSource source).expected ≠ 0) {h : History UnitState}
      {s : State UnitState Board} (inter : (Task.ofSource source).Interleaving workers limit h s)
      {failure : Failure} (returned : s.result? = some (.error failure)) :
      Performs workers limit id source h (.error failure)
  | collected (distinct : firstRepeated? [] source.entries = none)
      (needed : (Task.ofSource source).expected ≠ 0) {h : History UnitState}
      {s : State UnitState Board} (inter : (Task.ofSource source).Interleaving workers limit h s)
      (returned : s.result? = some (.ok ())) :
      Performs workers limit id source h
        (collect (Task.ofSource source) s.common.shared (View.scalars id source))

theorem Assembles.performs (hresult : Assembles workers limit id source result) :
    ∃ h, Performs workers limit id source h result := by
  cases hresult with
  | refused repeated => exact ⟨[], .refused repeated⟩
  | idle distinct unneeded => exact ⟨[], .idle distinct unneeded⟩
  | failed distinct needed inter returned =>
      exact ⟨_, .failed distinct needed inter.interleaving returned⟩
  | collected distinct needed inter returned =>
      exact ⟨_, .collected distinct needed inter.interleaving returned⟩

theorem one_le_units_of_needed (hneeded : (Task.ofSource source).expected ≠ 0) :
    1 ≤ (Task.ofSource source).units := by
  have hexpected := (Task.ofSource_proper source).expected_le_units
  omega

/-- A run of the units does not find repeated keys. -/
theorem Task.Interleaving.ne_duplicate {s : State UnitState Board}
    (hinter : (Task.ofSource source).Interleaving workers limit h s)
    (hneeded : (Task.ofSource source).expected ≠ 0) :
    s.result? ≠ some (.error (.duplicateProperty key origin)) := by
  intro hresult
  rcases hinter.error_cases (one_le_units_of_needed hneeded) hresult with
    (⟨text, hinternal⟩ | ⟨text, hspawn⟩) | ⟨elapsed, bound, htimeout⟩
  · cases hinternal
  · cases hspawn
  · cases htimeout

/-- Under every schedule, repeated keys are reported if they are found before anything runs, and
otherwise not at all. -/
theorem Performs.duplicate_iff (hresult : Performs workers limit id source h result) :
    result = .error (.duplicateProperty key origin) ↔
      ∃ e, firstRepeated? [] source.entries = some e ∧ e.key = key ∧ e.keyAt = origin := by
  have hnone : firstRepeated? [] source.entries = none →
      ¬ ∃ e, firstRepeated? [] source.entries = some e ∧ e.key = key ∧ e.keyAt = origin := by
    rintro hnone ⟨e, hsome, _⟩
    cases hnone.symm.trans hsome
  cases hresult with
  | @refused e repeated =>
      rw [repeated]
      simp
  | idle distinct _ => exact iff_of_false collect_ne_duplicate (hnone distinct)
  | collected distinct _ _ _ => exact iff_of_false collect_ne_duplicate (hnone distinct)
  | failed distinct needed inter returned =>
      refine iff_of_false (fun heq => ?_) (hnone distinct)
      cases heq
      exact inter.ne_duplicate needed returned

/-- The schedule of `assemble` does as all others do, however many units there are. -/
theorem assemble_duplicate_iff (workers : Nat) (limit : Option Duration) (id : SchemaId)
    (source : Schema ChildId) :
    assemble workers limit id source = some (.error (.duplicateProperty key origin)) ↔
      ∃ e, firstRepeated? [] source.entries = some e ∧ e.key = key ∧ e.keyAt = origin := by
  constructor
  · intro hresult
    obtain ⟨h, hperforms⟩ := (assembles_of_assemble hresult).performs
    exact hperforms.duplicate_iff.mp rfl
  · rintro ⟨e, hrepeated, rfl, rfl⟩
    simp only [assemble, hrepeated]

/-- How repeated properties of a schema are refused. -/
structure CatchesRepeats (id : SchemaId) (source : Schema ChildId) : Prop where
  /-- With any workers and limit, and under every schedule, a repeated key is reported if and only
  if two properties share one. -/
  reported : ∀ {workers limit h result}, Performs workers limit id source h result →
    ((∃ key origin, result = .error (.duplicateProperty key origin)) ↔ Repeated source.entries)
  /-- What is reported is the key of the first property that repeats one, with its place. -/
  first : ∀ {workers limit h result}, Performs workers limit id source h result →
    ∀ key origin, result = .error (.duplicateProperty key origin) ↔
      ∃ n e, FirstRepeat source.entries n e ∧ e.key = key ∧ e.keyAt = origin
  /-- No unit is run then. -/
  unrun : ∀ {workers limit h key origin},
    Performs workers limit id source h (.error (.duplicateProperty key origin)) → h = []
  /-- The schedule of `assemble` does so too. -/
  assembled : ∀ workers limit key origin,
    assemble workers limit id source = some (.error (.duplicateProperty key origin)) ↔
      ∃ n e, FirstRepeat source.entries n e ∧ e.key = key ∧ e.keyAt = origin
  /-- Nothing counts but the keys of the properties and their places. -/
  alone : ∀ {workers workers' limit limit' id' source' h h' result result'},
    source'.entries.map (fun e => (e.key, e.keyAt)) =
      source.entries.map (fun e => (e.key, e.keyAt)) →
    Performs workers limit id source h result → Performs workers' limit' id' source' h' result' →
      ∀ key origin, result = .error (.duplicateProperty key origin) ↔
        result' = .error (.duplicateProperty key origin)

theorem Performs.first_iff (hresult : Performs workers limit id source h result) :
    result = .error (.duplicateProperty key origin) ↔
      ∃ n e, FirstRepeat source.entries n e ∧ e.key = key ∧ e.keyAt = origin :=
  hresult.duplicate_iff.trans reports_iff

theorem first_transfer {entries : List (Entry α)} {entries' : List (Entry β)}
    (hsame : entries'.map (fun e => (e.key, e.keyAt)) = entries.map fun e => (e.key, e.keyAt)) :
    (∃ n e, FirstRepeat entries n e ∧ e.key = key ∧ e.keyAt = origin) →
      ∃ n e, FirstRepeat entries' n e ∧ e.key = key ∧ e.keyAt = origin := by
  rintro ⟨n, e, hn, rfl, rfl⟩
  obtain ⟨e', hn', hkey, hkeyAt⟩ := hn.transfer hsame
  exact ⟨n, e', hn', hkey, hkeyAt⟩

theorem catchesRepeats (id : SchemaId) (source : Schema ChildId) : CatchesRepeats id source where
  reported hresult := by
    rw [repeated_iff]
    simp only [hresult.first_iff]
    exact ⟨fun ⟨_, _, n, e, hn, _⟩ => ⟨n, e, hn⟩, fun ⟨n, e, hn⟩ => ⟨_, _, n, e, hn, rfl, rfl⟩⟩
  first hresult key origin := hresult.first_iff
  unrun hresult := by
    obtain ⟨e, hrepeated, _⟩ := hresult.duplicate_iff.mp rfl
    generalize hfailed : (Except.error _ : Except Failure View) = result at hresult
    cases hresult with
    | refused _ => rfl
    | idle _ _ => rfl
    | failed distinct _ _ _ => cases distinct.symm.trans hrepeated
    | collected distinct _ _ _ => cases distinct.symm.trans hrepeated
  assembled workers limit key origin :=
    (assemble_duplicate_iff workers limit id source).trans reports_iff
  alone hsame hresult hresult' key origin := by
    rw [hresult.first_iff, hresult'.first_iff]
    exact ⟨first_transfer hsame, first_transfer hsame.symm⟩

end Assembly
end ApiSchema
