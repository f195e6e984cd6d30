import ApiSchema.Proofs.View.Walk

/-!
Opening everything below a view.

An unfolding opens one handle after the other, in any order and under every schedule: each that
gives a view is replaced by the handles of that view, and each that fails is done with. However much
the document refers to itself, this ends, and by then every nested schema that can be reached in the
document has been met, each at its own place and none of them twice.
-/

namespace ApiSchema

open Source (Schema Fragment load)

variable {store store' : Store} {v : Json} {f g : Fragment} {view : View} {handle : Handle}
  {step : Step} {path : List Step} {id : SchemaId}

/-- An unfolding in progress: the store, the handles that wait to be opened and those that have
been, with the paths to them. -/
structure Unfolding where
  store : Store
  pending : List (List Step × Handle)
  met : List (List Step × Handle)

namespace Unfolding

variable {u u' u'' : Unfolding}

/-- The handles of a view with the paths to them. -/
def below (path : List Step) (view : View) : List (List Step × Handle) :=
  view.branches.map fun b => (path ++ [b.1], b.2)

def start (store : Store) (view : View) : Unfolding :=
  ⟨store, below [] view, []⟩

/-- One of the handles that wait is opened, whichever it is. -/
inductive Moves : Unfolding → Unfolding → Prop
  | stopped {store store' : Store} {pending rest met : List (List Step × Handle)}
      {path : List Step} {handle : Handle} {failure : Failure}
      (chosen : pending.Perm ((path, handle) :: rest))
      (opens : handle.Opens store store' (.error failure)) :
      Moves ⟨store, pending, met⟩ ⟨store', rest, (path, handle) :: met⟩
  | opened {store store' : Store} {pending rest met : List (List Step × Handle)}
      {path : List Step} {handle : Handle} {view : View}
      (chosen : pending.Perm ((path, handle) :: rest))
      (opens : handle.Opens store store' (.ok view)) :
      Moves ⟨store, pending, met⟩ ⟨store', below path view ++ rest, (path, handle) :: met⟩

/-- What an unfolding comes to after a number of moves. -/
inductive Run : Unfolding → Nat → Unfolding → Prop
  | refl (u : Unfolding) : Run u 0 u
  | move {u u' u'' : Unfolding} {n : Nat} (before : Run u n u') (moves : Moves u' u'') :
      Run u (n + 1) u''

theorem Run.trans {n n' : Nat} (h : Run u n u') (h' : Run u' n' u'') : Run u (n + n') u'' := by
  induction h' with
  | refl => exact h
  | move _ moves ih => exact .move ih moves

/-- Each move opens one handle. -/
theorem Run.length_met {n : Nat} (h : Run u n u') : u'.met.length = u.met.length + n := by
  induction h with
  | refl => rfl
  | move _ moves ih => cases moves <;> exact congrArg (· + 1) ih

/-- All handles that an unfolding has come upon. -/
def known (u : Unfolding) : List (List Step × Handle) :=
  u.met ++ u.pending

/-- The size of the value behind a handle. -/
def weight (store : Store) (item : List Step × Handle) : Nat :=
  ((store.fragment? item.2.child).map fun g => g.value.size).getD 0

/-- What holds of an unfolding at any time: the handles it has come upon stand for nested schemas of
the document, each for another one, and with one that has been opened all below it are known. -/
structure Covers (v : Json) (u : Unfolding) : Prop where
  sound : u.store.Sound
  reached : ∀ item ∈ u.known, ∃ g, Fragment.Reaches ⟨.root, v⟩ item.1 g ∧
    u.store.fragment? item.2.child = some g ∧ item.2.valueAt = some g.origin
  distinct : (u.known.map Prod.fst).Nodup
  first : ∀ step g, Fragment.Nests ⟨.root, v⟩ step g → [step] ∈ u.known.map Prod.fst
  closed : ∀ item ∈ u.met, ∀ f s step g, Fragment.Reaches ⟨.root, v⟩ item.1 f → f.Builds s →
    f.Nests step g → item.1 ++ [step] ∈ u.known.map Prod.fst
  parents : ∀ front step, front ≠ [] → front ++ [step] ∈ u.known.map Prod.fst →
    front ∈ u.met.map Prod.fst
  small : u.met.length + (u.pending.map (weight u.store)).sum < v.size

end Unfolding

namespace View.Pictures

/-- The handles of a view stand for what is nested in its fragment. -/
theorem nests_of_branch (h : view.Pictures store f) (hf : f.value.Distinct)
    (hmem : (step, handle) ∈ view.branches) :
    ∃ g, f.Nests step g ∧ store.fragment? handle.child = some g ∧
      handle.valueAt = some g.origin := by
  have hsame : (step, handle.glimpse store) ∈ view.branches.map fun b => (b.1, b.2.glimpse store) :=
    List.mem_map_of_mem hmem
  rw [h.branches_eq] at hsame
  obtain ⟨⟨step', g⟩, hg, heq⟩ := List.mem_map.mp hsame
  obtain ⟨rfl, hglimpse⟩ := Prod.mk.inj heq
  obtain ⟨hfragment, hplace⟩ := Prod.mk.inj hglimpse
  exact ⟨g, (Fragment.mem_branches hf).mp hg, hfragment.symm, hplace.symm⟩

theorem steps_eq (h : view.Pictures store f) :
    view.branches.map Prod.fst = f.branches.map Prod.fst := by
  have hsame := congrArg (List.map Prod.fst) h.branches_eq
  rw [List.map_map, List.map_map] at hsame
  exact hsame

/-- Every nested schema of the fragment has a handle. -/
theorem mem_steps (h : view.Pictures store f) (hf : f.value.Distinct) (hg : f.Nests step g) :
    step ∈ view.branches.map Prod.fst := by
  rw [h.steps_eq]
  exact List.mem_map_of_mem (f := Prod.fst) ((Fragment.mem_branches hf).mpr hg)

/-- The values behind the handles of a view are together smaller than the one it pictures. -/
theorem weight_below (h : view.Pictures store f) (path : List Step) :
    ((Unfolding.below path view).map (Unfolding.weight store)).sum < f.value.size := by
  obtain ⟨s, hload, _⟩ := h.stored
  obtain ⟨members, hvalue, _⟩ := Source.load_reads hload
  have hsame := congrArg (List.map fun b => (b.2.1.map fun g => g.value.size).getD 0) h.branches_eq
  rw [List.map_map, List.map_map] at hsame
  have hweights : (Unfolding.below path view).map (Unfolding.weight store) =
      f.branches.map fun b => b.2.value.size := by
    rw [Unfolding.below, List.map_map]
    exact hsame
  rw [hweights]
  exact Fragment.branches_size hvalue

end View.Pictures

namespace Unfolding

variable {u u' : Unfolding} {rest met : List (List Step × Handle)}

theorem paths_below (path : List Step) (view : View) :
    (below path view).map Prod.fst =
      (view.branches.map Prod.fst).map fun step => path ++ [step] := by
  rw [below, List.map_map, List.map_map]
  rfl

/-- What an unfolding starts with. -/
theorem Covers.start (hv : v.InMemory) (hsound : store.Sound)
    (hpictures : view.Pictures store ⟨.root, v⟩) : Covers v (start store view) where
  sound := hsound
  reached := by
    intro item hitem
    obtain ⟨⟨step, handle⟩, hmem, rfl⟩ := List.mem_map.mp hitem
    obtain ⟨g, hnests, hfragment, hplace⟩ := hpictures.nests_of_branch hv.distinct hmem
    exact ⟨g, ⟨[], step, _, rfl, .here _, hnests⟩, hfragment, hplace⟩
  distinct := by
    show ((below [] view).map Prod.fst).Nodup
    rw [paths_below, hpictures.steps_eq]
    exact (Fragment.nodup_branches hv.distinct).map fun a b h => by simpa using h
  first := by
    intro step g hnests
    show [step] ∈ (below [] view).map Prod.fst
    rw [paths_below]
    exact List.mem_map_of_mem (f := fun step => [] ++ [step])
      (hpictures.mem_steps hv.distinct hnests)
  closed := nofun
  parents := by
    intro front step hfront hmem
    change front ++ [step] ∈ (below [] view).map Prod.fst at hmem
    rw [paths_below] at hmem
    obtain ⟨step', _, heq⟩ := List.mem_map.mp hmem
    exact absurd (List.append_inj_left' heq rfl).symm hfront
  small := Nat.lt_of_le_of_lt (Nat.le_of_eq (Nat.zero_add _)) (hpictures.weight_below [])

theorem weight_eq {item : List Step × Handle} (h : store.fragment? item.2.child = some g) :
    weight store item = g.value.size := by
  rw [weight, h]
  rfl

/-- A handle that waits is replaced by new ones, one step further down. -/
theorem Covers.replace {pending new : List (List Step × Handle)} {item : List Step × Handle}
    (h : Covers v ⟨store, pending, met⟩) (chosen : pending.Perm (item :: rest))
    (hgrows : store.Grows store')
    (hreached : ∀ item ∈ new, ∃ g, Fragment.Reaches ⟨.root, v⟩ item.1 g ∧
      store'.fragment? item.2.child = some g ∧ item.2.valueAt = some g.origin)
    (hdistinct : (new.map Prod.fst).Nodup)
    (hparent : ∀ path ∈ new.map Prod.fst, ∃ step, path = item.1 ++ [step])
    (hclosed : ∀ f s step g, Fragment.Reaches ⟨.root, v⟩ item.1 f → f.Builds s →
      f.Nests step g → item.1 ++ [step] ∈ new.map Prod.fst)
    (hweight : (new.map (weight store')).sum < weight store item) :
    Covers v ⟨store', new ++ rest, item :: met⟩ := by
  have hold : (met ++ pending).Perm (item :: met ++ rest) :=
    (chosen.append_left met).trans List.perm_middle
  have hnew : (item :: met ++ (new ++ rest)).Perm ((met ++ pending) ++ new) := by
    calc (item :: met ++ (new ++ rest)).Perm (item :: met ++ (rest ++ new)) :=
          List.perm_append_comm.append_left _
      List.Perm _ ((item :: met ++ rest) ++ new) := by rw [List.append_assoc]
      List.Perm _ ((met ++ pending) ++ new) := hold.symm.append_right new
  have hknown : ∀ path, path ∈ (item :: met ++ (new ++ rest)).map Prod.fst ↔
      path ∈ (met ++ pending).map Prod.fst ∨ path ∈ new.map Prod.fst := by
    intro path
    rw [(hnew.map Prod.fst).mem_iff, List.map_append, List.mem_append]
  have hitem : item ∈ met ++ pending := hold.mem_iff.mpr List.mem_cons_self
  obtain ⟨g, hitemReached, _, _⟩ := h.reached item hitem
  have hfresh : ∀ path ∈ new.map Prod.fst, path ∉ (met ++ pending).map Prod.fst := by
    intro path hpath hmem
    obtain ⟨step, rfl⟩ := hparent path hpath
    have hmet := h.parents item.1 step hitemReached.path_ne_nil hmem
    have hnodup := ((hold.map Prod.fst).nodup_iff.mp h.distinct)
    rw [List.cons_append, List.map_cons, List.nodup_cons, List.map_append] at hnodup
    exact hnodup.1 (List.mem_append_left _ hmet)
  exact {
    sound := hgrows.sound h.sound
    reached := by
      intro other hother
      rcases List.mem_append.mp (hnew.mem_iff.mp hother) with hother | hother
      · obtain ⟨g, hreached, hfragment, hplace⟩ := h.reached other hother
        exact ⟨g, hreached, hgrows.fragment? hfragment, hplace⟩
      · exact hreached other hother
    distinct := by
      rw [show Unfolding.known ⟨store', new ++ rest, item :: met⟩ =
        item :: met ++ (new ++ rest) from rfl, (hnew.map Prod.fst).nodup_iff, List.map_append]
      refine List.nodup_append.mpr ⟨h.distinct, hdistinct, ?_⟩
      rintro path hpath _ hpath' rfl
      exact hfresh path hpath' hpath
    first := fun step g hnests => (hknown _).mpr (Or.inl (h.first step g hnests))
    closed := by
      intro other hother f s step g hreaches hbuilds hnests
      refine (hknown _).mpr ?_
      rcases List.mem_cons.mp hother with rfl | hother
      · exact Or.inr (hclosed f s step g hreaches hbuilds hnests)
      · exact Or.inl (h.closed other hother f s step g hreaches hbuilds hnests)
    parents := by
      intro front step hfront hmem
      rcases (hknown _).mp hmem with hmem | hmem
      · exact List.mem_cons_of_mem _ (h.parents front step hfront hmem)
      · obtain ⟨step', heq⟩ := hparent _ hmem
        rw [List.append_inj_left' heq rfl]
        exact List.mem_cons_self
    small := by
      have hsame : rest.map (weight store') = rest.map (weight store) := by
        refine List.map_congr_left fun other hother => ?_
        obtain ⟨g, _, hfragment, _⟩ := h.reached other
          (List.mem_append_right met (chosen.mem_iff.mpr (List.mem_cons_of_mem item hother)))
        rw [weight_eq hfragment, weight_eq (hgrows.fragment? hfragment)]
      have hpending := (chosen.map (weight store)).sum_nat
      have hsmall := h.small
      show (item :: met).length + ((new ++ rest).map (weight store')).sum < v.size
      simp only [List.map_cons, List.sum_cons, List.map_append, List.sum_append, List.length_cons,
        hsame] at hpending hsmall ⊢
      omega }

theorem Covers.moves (hv : v.InMemory) (h : Covers v u) (hmoves : Moves u u') : Covers v u' := by
  have hroot : Fragment.Grounded v ⟨.root, v⟩ := Pointer.resolve?_root v
  cases hmoves with
  | @stopped store store' pending rest met path handle failure chosen opens =>
      have hmem : (path, handle) ∈ met ++ pending :=
        List.mem_append_right met (chosen.mem_iff.mpr List.mem_cons_self)
      obtain ⟨g, hreaches, hfragment, _⟩ := h.reached _ hmem
      have hg := hv.part (hreaches.chain.grounded hroot)
      rcases opens.outcome h.sound hg hfragment with ⟨e, hrefuses, _⟩ | ⟨_, _, _, hresult, _⟩
      · show Covers v ⟨store', [] ++ rest, (path, handle) :: met⟩
        refine h.replace chosen opens.grows nofun List.nodup_nil nofun ?_ ?_
        · intro f s step g' hreaches' hbuilds _
          rw [hreaches'.chain.eq hreaches.chain, Fragment.builds_iff,
            Fragment.refuses_iff.mp hrefuses] at hbuilds
          cases hbuilds
        · rw [weight_eq hfragment]
          exact Json.one_le_size g.value
      · cases hresult
  | @opened store store' pending rest met path handle view chosen opens =>
      have hmem : (path, handle) ∈ met ++ pending :=
        List.mem_append_right met (chosen.mem_iff.mpr List.mem_cons_self)
      obtain ⟨g, hreaches, hfragment, _⟩ := h.reached _ hmem
      have hg := hv.part (hreaches.chain.grounded hroot)
      obtain ⟨_, _, hresult⟩ | ⟨s, _, hbuilds, hresult, hpictures⟩ :=
        opens.outcome h.sound hg hfragment
      · cases hresult
      cases hresult
      refine h.replace chosen opens.grows ?_ ?_ ?_ ?_ ?_
      · intro item hitem
        obtain ⟨⟨step, below⟩, hbranch, rfl⟩ := List.mem_map.mp hitem
        obtain ⟨g', hnests, hfragment', hplace⟩ := hpictures.nests_of_branch hg.distinct hbranch
        exact ⟨g', ⟨path, step, g, rfl, hreaches.leads hbuilds, hnests⟩, hfragment', hplace⟩
      · rw [paths_below, hpictures.steps_eq]
        exact (Fragment.nodup_branches hg.distinct).map fun a b heq => by simpa using heq
      · intro path' hpath'
        rw [paths_below] at hpath'
        obtain ⟨step, _, rfl⟩ := List.mem_map.mp hpath'
        exact ⟨step, rfl⟩
      · intro f s step g' hreaches' _ hnests
        rw [hreaches'.chain.eq hreaches.chain] at hnests
        rw [paths_below]
        exact List.mem_map_of_mem (hpictures.mem_steps hg.distinct hnests)
      · rw [weight_eq hfragment]
        exact hpictures.weight_below path

theorem Covers.run {n : Nat} (hv : v.InMemory) (h : Covers v u) (hrun : Run u n u') :
    Covers v u' := by
  induction hrun with
  | refl => exact h
  | move _ moves ih => exact ih.moves hv moves

/-- As long as a handle waits, it can be opened. -/
theorem Covers.exists_moves (hv : v.InMemory) (h : Covers v u) (hpending : u.pending ≠ []) :
    ∃ u', Moves u u' := by
  obtain ⟨store, pending, met⟩ := u
  obtain ⟨⟨path, handle⟩, rest, rfl⟩ := List.exists_cons_of_ne_nil hpending
  have hroot : Fragment.Grounded v ⟨.root, v⟩ := Pointer.resolve?_root v
  obtain ⟨g, hreaches, hfragment, _⟩ := h.reached (path, handle) (List.mem_append_right met
    List.mem_cons_self)
  have hg := hv.part (hreaches.chain.grounded hroot)
  have hhost : Host.Unlimited ⟨1, none⟩ := rfl
  have hopens := Host.openHandle_opens hhost h.sound hg hfragment
  cases hresult : (Host.openHandle ⟨1, none⟩ handle store).1 with
  | error failure =>
      rw [hresult] at hopens
      exact ⟨_, .stopped (.refl _) hopens⟩
  | ok view =>
      rw [hresult] at hopens
      exact ⟨_, .opened (.refl _) hopens⟩

/-- Once no handle waits, every nested schema that can be reached has been met. -/
theorem Covers.complete (h : Covers v u) (hpending : u.pending = []) (path : List Step)
    (g : Fragment) (hreaches : Fragment.Reaches ⟨.root, v⟩ path g) : path ∈ u.met.map Prod.fst := by
  have hknown : u.known = u.met := by rw [known, hpending, List.append_nil]
  induction hn : path.length generalizing path g with
  | zero => exact absurd (List.length_eq_zero_iff.mp hn) hreaches.path_ne_nil
  | succ n ih =>
      obtain ⟨front, step, f, rfl, hleads, hnests⟩ := hreaches
      rw [List.length_append, List.length_singleton, Nat.add_right_cancel_iff] at hn
      by_cases hfront : front = []
      · subst hfront
        cases hleads
        exact hknown ▸ h.first step g hnests
      · have hreaches := hleads.reaches hfront
        have hmet := ih front f hreaches hn
        obtain ⟨item, hitem, rfl⟩ := List.mem_map.mp hmet
        obtain ⟨s, hbuilds⟩ := hleads.builds hfront
        exact hknown ▸ h.closed item hitem f s step g hreaches hbuilds hnests

theorem Moves.grows (h : Moves u u') : u.store.Grows u'.store := by
  cases h with
  | stopped _ opens => exact opens.grows
  | opened _ opens => exact opens.grows

theorem Run.grows {n : Nat} (h : Run u n u') : u.store.Grows u'.store := by
  induction h with
  | refl => exact .refl _
  | move _ moves ih => exact ih.trans moves.grows

end Unfolding

/-- An expansion in which every handle has been opened. -/
inductive Expansion.Complete : Expansion → Prop
  | node {view : View} {branches : List (Step × Handle × Except Failure Expansion)}
      (below : ∀ branch ∈ branches, ∀ e, branch.2.2 = .ok e → Complete e) :
      Complete (.node view branches)

mutual

/-- The handles that have been opened in an expansion, from the top down, with the paths to them. -/
def Expansion.opened (path : List Step) : Expansion → List (List Step × Handle)
  | .leaf _ => []
  | .node _ branches => openedAll path branches

def openedAll (path : List Step) :
    List (Step × Handle × Except Failure Expansion) → List (List Step × Handle)
  | [] => []
  | (step, handle, .error _) :: rest => (path ++ [step], handle) :: openedAll path rest
  | (step, handle, .ok below) :: rest =>
    (path ++ [step], handle) :: (below.opened (path ++ [step]) ++ openedAll path rest)

end

namespace Host

open Unfolding (Run Moves below)

/-- What a machine does with one handle of a view. -/
def expandBranch (host : Host) (depth : Nat) (branch : Step × Handle) :
    StateM Store (Step × Handle × Except Failure Expansion) := do
  match ← host.openHandle branch.2 with
  | .error failure => return (branch.1, branch.2, .error failure)
  | .ok below => return (branch.1, branch.2, .ok (← host.expand depth below))

theorem expandBranch_eq (host : Host) (depth : Nat) (branch : Step × Handle) (store : Store) :
    host.expandBranch depth branch store =
      match (host.openHandle branch.2 store).1 with
      | .error failure => ((branch.1, branch.2, .error failure), (host.openHandle branch.2 store).2)
      | .ok view => ((branch.1, branch.2,
          .ok (host.expand depth view (host.openHandle branch.2 store).2).1),
          (host.expand depth view (host.openHandle branch.2 store).2).2) := by
  simp only [expandBranch, bind, StateT.bind]
  rcases host.openHandle branch.2 store with ⟨answer, after⟩
  cases answer <;> rfl

theorem expand_succ (host : Host) (depth : Nat) (view : View) (store : Store) :
    host.expand (depth + 1) view store =
      (.node view (view.branches.mapM (host.expandBranch depth) store).1,
        (view.branches.mapM (host.expandBranch depth) store).2) := rfl

theorem expandBranches_cons (host : Host) (depth : Nat) (branch : Step × Handle)
    (rest : List (Step × Handle)) (store : Store) :
    (branch :: rest).mapM (host.expandBranch depth) store =
      ((host.expandBranch depth branch store).1 ::
        (rest.mapM (host.expandBranch depth) (host.expandBranch depth branch store).2).1,
        (rest.mapM (host.expandBranch depth) (host.expandBranch depth branch store).2).2) := by
  rw [List.mapM_cons]
  rfl

/-- What a machine does to open everything below a view is one of the unfoldings, and it leaves no
handle closed if it goes as deep as the document. -/
def Unfolds (host : Host) (v : Json) (depth : Nat) : Prop :=
  ∀ {store : Store} {view : View} {f : Fragment}, store.Sound → f.Grounded v →
    view.Pictures store f → f.value.depth ≤ depth →
    ∀ (path : List Step) (rest met : List (List Step × Handle)),
      (∃ n, Run ⟨store, below path view ++ rest, met⟩ n ⟨(host.expand depth view store).2, rest,
        ((host.expand depth view store).1.opened path).reverse ++ met⟩) ∧
      (host.expand depth view store).1.Complete

/-- If a machine gets to the end below each of some handles, it gets to the end below all of them.
-/
theorem expandBranches_run {host : Host} {depth : Nat} (hhost : host.Unlimited) (hv : v.InMemory)
    (hunfolds : host.Unfolds v depth) (path : List Step) (branches : List (Step × Handle))
    (hsound : store.Sound)
    (hbranches : ∀ b ∈ branches, ∃ g, g.Grounded v ∧ g.value.depth ≤ depth ∧
      store.fragment? b.2.child = some g)
    (rest met : List (List Step × Handle)) :
    (∃ n, Run ⟨store, branches.map (fun b => (path ++ [b.1], b.2)) ++ rest, met⟩ n
      ⟨(branches.mapM (host.expandBranch depth) store).2, rest,
        (openedAll path (branches.mapM (host.expandBranch depth) store).1).reverse ++ met⟩) ∧
      ∀ branch ∈ (branches.mapM (host.expandBranch depth) store).1, ∀ e,
        branch.2.2 = .ok e → e.Complete := by
  induction branches generalizing store met with
  | nil => exact ⟨⟨0, .refl _⟩, nofun⟩
  | cons branch others ih =>
      obtain ⟨step, handle⟩ := branch
      obtain ⟨⟨g, hground, hdepth, hfragment⟩, hothers⟩ := List.forall_mem_cons.mp hbranches
      have hg := hv.part hground
      have hopens := openHandle_opens hhost hsound hg hfragment
      have hlater : ∀ {after : Store}, store.Grows after → ∀ b ∈ others, ∃ g, g.Grounded v ∧
          g.value.depth ≤ depth ∧ after.fragment? b.2.child = some g := by
        intro after hgrows b hb
        obtain ⟨g, hground, hdepth, hfragment⟩ := hothers b hb
        exact ⟨g, hground, hdepth, hgrows.fragment? hfragment⟩
      rw [expandBranches_cons, expandBranch_eq]
      cases hanswer : (host.openHandle handle store).1 with
      | error failure =>
          rw [hanswer] at hopens
          have hmoves : Moves ⟨store, (path ++ [step], handle) :: (others.map (fun b =>
              (path ++ [b.1], b.2)) ++ rest), met⟩ _ := .stopped (.refl _) hopens
          obtain ⟨⟨n, hrun⟩, hcomplete⟩ := ih (hopens.grows.sound hsound) (hlater hopens.grows)
            ((path ++ [step], handle) :: met)
          simp only
          refine ⟨⟨1 + n, ?_⟩, List.forall_mem_cons.mpr ⟨nofun, hcomplete⟩⟩
          rw [openedAll, List.reverse_cons, List.append_assoc]
          exact ((Run.refl _).move hmoves).trans hrun
      | ok view =>
          rw [hanswer] at hopens
          have hmoves : Moves ⟨store, (path ++ [step], handle) :: (others.map (fun b =>
              (path ++ [b.1], b.2)) ++ rest), met⟩ _ := .opened (.refl _) hopens
          obtain ⟨_, _, hresult⟩ | ⟨_, _, _, hresult, hpictures⟩ :=
            hopens.outcome hsound hg hfragment
          · cases hresult
          cases hresult
          have hsound := hopens.grows.sound hsound
          obtain ⟨⟨n, hbelow⟩, hcompleteBelow⟩ := hunfolds hsound hground hpictures hdepth
            (path ++ [step]) (others.map (fun b => (path ++ [b.1], b.2)) ++ rest)
            ((path ++ [step], handle) :: met)
          obtain ⟨⟨n', hrun⟩, hcomplete⟩ := ih (hbelow.grows.sound hsound)
            (hlater (hopens.grows.trans hbelow.grows)) _
          simp only
          refine ⟨⟨1 + n + n', ?_⟩, List.forall_mem_cons.mpr ⟨?_, hcomplete⟩⟩
          · rw [openedAll, List.reverse_cons, List.reverse_append, List.append_assoc,
              List.append_assoc]
            exact (((Run.refl _).move hmoves).trans hbelow).trans hrun
          · intro e heq
            cases heq
            exact hcompleteBelow

theorem expand_unfolds {host : Host} (hhost : host.Unlimited) (hv : v.InMemory) (depth : Nat) :
    host.Unfolds v depth := by
  induction depth with
  | zero =>
      intro store view f _ _ hpictures hdepth
      obtain ⟨s, hload, _⟩ := hpictures.stored
      obtain ⟨members, hvalue, _⟩ := Source.load_reads hload
      rw [hvalue, Json.depth] at hdepth
      cases hdepth
  | succ depth ih =>
      intro store view f hsound hf hpictures hdepth path rest met
      have hbranches : ∀ b ∈ view.branches, ∃ g, g.Grounded v ∧ g.value.depth ≤ depth ∧
          store.fragment? b.2.child = some g := by
        intro b hb
        obtain ⟨g, hnests, hfragment, _⟩ := hpictures.nests_of_branch (hv.part hf).distinct hb
        exact ⟨g, hnests.grounded hf, Nat.le_of_lt_succ (Nat.lt_of_lt_of_le hnests.depth hdepth),
          hfragment⟩
      obtain ⟨hrun, hcomplete⟩ := expandBranches_run hhost hv ih path view.branches hsound hbranches
        rest met
      rw [expand_succ]
      exact ⟨hrun, .node hcomplete⟩

end Host

namespace Unfolding

/-- Opening everything below a view of a document ends, and covers the nested schemas that can be
reached in the document, each once. -/
structure CoversOnce (v : Json) (store : Store) (view : View) : Prop where
  /-- No unfolding goes on forever: there are no more moves than the document has parts. -/
  bounded : ∀ {n u}, Run (start store view) n u → n < v.size
  /-- None gets stuck before every handle has been opened. -/
  progress : ∀ {n u}, Run (start store view) n u → u.pending ≠ [] → ∃ u', Moves u u'
  /-- No assembly on the way gets stuck or goes on forever, whatever the schedule. -/
  ends : ∀ {n u}, Run (start store view) n u → ∀ item ∈ u.pending,
    ∀ {before after : Store} {id : SchemaId} {workers : Nat}, u.store.Later before →
      (Store.schemaOf item.2.child before).1 = .ok id →
      (Store.schemaOf item.2.child before).2.Later after → 1 ≤ workers →
      (Assembly.Task.ofSource (after.schema id)).units ≠ 0 →
      ((Assembly.Task.ofSource (after.schema id)).plan workers none).Ends Pool.State.Returned
        (((Assembly.Task.ofSource (after.schema id)).plan workers none).initial
          (Assembly.Task.ofSource (after.schema id)).latch
          (Assembly.Board.empty (Assembly.Task.ofSource (after.schema id))))
  /-- No chain of handles that open is as long as the document is deep. -/
  chains : ∀ {path store' last view'}, view.Walks 0 none store path store' (.ok (last, view')) →
    path.length < v.depth
  /-- No two handles are met at the same place. -/
  once : ∀ {n u}, Run (start store view) n u → (u.met.map fun item => item.2.valueAt).Nodup
  /-- Every handle that is met stands for a nested schema that can be reached. -/
  placed : ∀ {n u}, Run (start store view) n u → ∀ item ∈ u.met,
    ∃ g, Fragment.Reaches ⟨.root, v⟩ item.1 g ∧ item.2.valueAt = some g.origin
  /-- In the end, each of these has been met. -/
  covers : ∀ {n u}, Run (start store view) n u → u.pending = [] →
    ∀ path g, Fragment.Reaches ⟨.root, v⟩ path g →
      some g.origin ∈ u.met.map fun item => item.2.valueAt
  /-- A place tells which nested schema it is and how it is reached. -/
  apart : ∀ path path' g g', Fragment.Reaches ⟨.root, v⟩ path g →
    Fragment.Reaches ⟨.root, v⟩ path' g' → g.origin = g'.origin → path = path' ∧ g = g'
  /-- A machine that goes as deep as the document leaves no handle closed, and what it does is one
  of these unfoldings, from the top down. -/
  machine : ∀ host : Host, host.Unlimited → ∀ depth, v.depth ≤ depth →
    (host.expand depth view store).1.Complete ∧
      ∃ n, Run (start store view) n ⟨(host.expand depth view store).2, [],
        ((host.expand depth view store).1.opened []).reverse⟩

/-- The full expansion of any document that loads terminates, and it meets each nested schema that
can be reached once. -/
theorem unfolding_covers_once {workers : Nat} (hv : v.InMemory)
    (hholds : Store.Holds .root v id store)
    (hview : Assembly.Assembles workers none id (store.schema id) (.ok view)) :
    CoversOnce v store view := by
  obtain ⟨s, hload, hshows⟩ := hholds.shows
  have hsound := hholds.sound
  have hroot : Fragment.Grounded v ⟨.root, v⟩ := Pointer.resolve?_root v
  obtain ⟨_, hresult, rfl, hpictures⟩ :=
    View.pictures_of_assembles (f := ⟨.root, v⟩) hv hload hshows hview
  cases hresult
  have hcovers : ∀ {n u}, Run (start store view) n u → Covers v u :=
    fun hrun => (Covers.start hv hsound hpictures).run hv hrun
  exact {
    bounded := by
      intro n u hrun
      have hlength : u.met.length = n := hrun.length_met.trans (Nat.zero_add n)
      have hsmall := (hcovers hrun).small
      omega
    progress := fun hrun hpending => (hcovers hrun).exists_moves hv hpending
    ends := by
      intro n u hrun item hitem before after id workers
      obtain ⟨g, hreaches, hfragment, _⟩ :=
        (hcovers hrun).reached item (List.mem_append_right _ hitem)
      exact Store.ends_of_answer (hcovers hrun).sound (hv.part (hreaches.chain.grounded hroot))
        hfragment
    chains := by
      intro path store' last view' hwalks
      cases hwalks.lands hsound hv hroot rfl hpictures with
      | arrived leads _ pictures =>
          obtain ⟨s, hload, _⟩ := pictures.stored
          obtain ⟨members, hobject, _⟩ := Source.load_reads hload
          exact leads.length_lt ⟨members, hobject⟩
    once := by
      intro n u hrun
      have hreached := (hcovers hrun).reached
      have hpaths : (u.met.map Prod.fst).Nodup := by
        have hdistinct := (hcovers hrun).distinct
        rw [known, List.map_append] at hdistinct
        exact hdistinct.of_append_left
      refine (List.Nodup.of_map _ hpaths).map_on fun item hitem other hother heq => ?_
      obtain ⟨g, hreaches, _, hplace⟩ := hreached item (List.mem_append_left _ hitem)
      obtain ⟨g', hreaches', _, hplace'⟩ := hreached other (List.mem_append_left _ hother)
      have horigin : g.origin = g'.origin :=
        Option.some.inj (hplace.symm.trans (heq.trans hplace'))
      exact List.inj_on_of_nodup_map hpaths hitem hother
        (hreaches.chain.path_eq hreaches'.chain horigin).1
    placed := by
      intro n u hrun item hitem
      obtain ⟨g, hreaches, _, hplace⟩ := (hcovers hrun).reached item (List.mem_append_left _ hitem)
      exact ⟨g, hreaches, hplace⟩
    covers := by
      intro n u hrun hpending path g hreaches
      have hmet := (hcovers hrun).complete hpending path g hreaches
      obtain ⟨item, hitem, rfl⟩ := List.mem_map.mp hmet
      obtain ⟨g', hreaches', _, hplace⟩ :=
        (hcovers hrun).reached item (List.mem_append_left _ hitem)
      rw [hreaches.chain.eq hreaches'.chain, ← hplace]
      exact List.mem_map_of_mem hitem
    apart := fun _ _ _ _ hreaches hreaches' => hreaches.chain.path_eq hreaches'.chain
    machine := by
      intro host hhost depth hdepth
      obtain ⟨⟨n, hrun⟩, hcomplete⟩ :=
        Host.expand_unfolds hhost hv depth hsound hroot hpictures hdepth
        [] [] []
      rw [List.append_nil, List.append_nil] at hrun
      exact ⟨hcomplete, n, hrun⟩ }

/-- A document that refers to itself, with a lone schema, a list of two and a reference. -/
def cyclicDocument : Json :=
  .obj [("not", .obj [("allOf", .arr [.obj [], .obj [("$ref", .str "#")]])]),
    ("properties", .obj [("a", .obj [("$ref", .str "#")])])]

/-- An unfolding of the cyclic document comes to an end, and has then met the second item of the
list under the lone schema, though that refers back to the root. -/
theorem unfolding_covers_cyclic : ∃ id store view, Store.Holds .root cyclicDocument id store ∧
    CoversOnce cyclicDocument store view ∧ ∃ n u, Run (start store view) n u ∧ u.pending = [] ∧
      some ⟨"/not/allOf/1"⟩ ∈ u.met.map fun item => item.2.valueAt := by
  have hv : cyclicDocument.InMemory := ⟨by decide, by decide⟩
  have hholds : Store.Holds .root cyclicDocument _ _ := .intro .now rfl .now
  obtain ⟨view, hview⟩ := View.exists_view hv hholds (Nat.le_refl 1)
  have hcovers := unfolding_covers_once hv hholds hview
  obtain ⟨_, n, hrun⟩ := hcovers.machine ⟨1, none⟩ rfl cyclicDocument.depth (Nat.le_refl _)
  refine ⟨_, _, view, hholds, hcovers, n, _, hrun, rfl, ?_⟩
  have hlone : Fragment.Nests ⟨.root, cyclicDocument⟩ (.element .not 0) _ := .lone rfl rfl
  have hsecond : Fragment.Nests ⟨⟨"/not"⟩, .obj [("allOf", .arr [.obj [],
      .obj [("$ref", .str "#")]])]⟩ (.element .allOf 1) _ := .item rfl rfl
  have hbuilds : ∃ s, Fragment.Builds ⟨⟨"/not"⟩, .obj [("allOf", .arr [.obj [],
      .obj [("$ref", .str "#")]])]⟩ s := ⟨_, Fragment.builds_iff.mpr rfl⟩
  obtain ⟨s, hbuilds⟩ := hbuilds
  exact hcovers.covers hrun rfl [.element .not 0, .element .allOf 1] _
    ⟨[.element .not 0], _, _, rfl, .down hlone hbuilds (.here _), hsecond⟩

end Unfolding
end ApiSchema
