import ApiSchema.Proofs.Source.Transport
import ApiSchema.Proofs.Store.Uses
import Mathlib.Data.Option.Basic

/-!
What a nested schema holds shows nowhere until it is asked for.

Two stores are doubles if they are the same but for the fragments of some of their children.
Documents that differ only inside nested schemas load alike, and they leave doubles behind. In
doubles all schemas are the same, so all their views are, and children that are the same answer the
same.
-/

namespace ApiSchema

open Source (Schema Fragment Element Entry Transport load)

namespace Source

variable {other : Fragment → OrderedMap Json} {f : Fragment}

/-- Objects are exchanged for others, and nothing moves. -/
def Transport.exchange (other : Fragment → OrderedMap Json) : Transport :=
  .inPlace (fun f => if f.value.isObject then .obj (other f) else f.value) fun f => by
    split
    next hobject => exact hobject.symm
    next => rfl

def Fragment.exchange (other : Fragment → OrderedMap Json) : Fragment → Fragment :=
  (Transport.exchange other).fragment

/-- The document with other objects for nested schemas. -/
def exchange (other : Fragment → OrderedMap Json) : Pointer → Json → Json :=
  (Transport.exchange other).refill

/-- A document loads whatever its nested schemas hold, or is refused with the same error. -/
theorem load_exchange (other : Fragment → OrderedMap Json) (p : Pointer) (v : Json) :
    load p (exchange other p v) = (load p v).map (Schema.map (Fragment.exchange other)) :=
  Transport.load_inPlace ..

end Source

variable {other : Fragment → OrderedMap Json}

/-- A cell is the same in a double, or a deferred child whose fragment is exchanged. -/
inductive Cell.Exchanged (other : Fragment → OrderedMap Json) : Cell → Cell → Prop
  | same (cell : Cell) : Exchanged other cell cell
  | other (f : Fragment) (result : Option (Except LoadError SchemaId)) :
      Exchanged other (.child ⟨f.origin, .deferred f.value result⟩)
        (.child ⟨f.origin, .deferred (f.exchange other).value result⟩)

namespace Store

variable {store store' double : Store} {id : SchemaId} {c : ChildId} {α β γ : Type}

/-- Two stores that are the same but for the fragments of some children. -/
structure Exchanged (other : Fragment → OrderedMap Json) (store double : Store) : Prop where
  size : double.cells.size = store.cells.size
  cells : ∀ i : Nat, Option.Rel (Cell.Exchanged other) store.cells[i]? double.cells[i]?

theorem Exchanged.refl (other : Fragment → OrderedMap Json) (store : Store) :
    Exchanged other store store := by
  refine ⟨rfl, fun i => ?_⟩
  cases store.cells[i]? with
  | none => exact .none
  | some cell => exact .some (.same cell)

namespace Exchanged

theorem schema?_eq (h : Exchanged other store double) (id : SchemaId) :
    double.schema? id = store.schema? id := by
  have hcell := h.cells id.address
  unfold schema?
  generalize store.cells[id.address]? = x, double.cells[id.address]? = y at hcell
  cases hcell with
  | none => rfl
  | some hcell => cases hcell <;> rfl

theorem schema_eq (h : Exchanged other store double) (id : SchemaId) :
    double.schema id = store.schema id := by
  rw [schema, schema, h.schema?_eq]

/-- A child is the same, or its fragment is exchanged. -/
theorem child? (h : Exchanged other store double) (c : ChildId) :
    double.child? c = store.child? c ∨ ∃ (f : Fragment) (result : _),
      store.child? c = some ⟨f.origin, .deferred f.value result⟩ ∧
        double.child? c = some ⟨f.origin, .deferred (f.exchange other).value result⟩ := by
  have hcell := h.cells c.address
  unfold Store.child?
  generalize store.cells[c.address]? = x, double.cells[c.address]? = y at hcell
  cases hcell with
  | none => exact Or.inl rfl
  | some hcell =>
      cases hcell with
      | same cell => exact Or.inl rfl
      | other f result => exact Or.inr ⟨f, result, rfl, rfl⟩

theorem push (h : Exchanged other store double) {cell cell' : Cell}
    (hcell : Cell.Exchanged other cell cell') :
    Exchanged other { store with cells := store.cells.push cell }
      { double with cells := double.cells.push cell' } := by
  refine ⟨by simp [h.size], fun i => ?_⟩
  rw [Array.getElem?_push, Array.getElem?_push, h.size]
  split
  · exact .some hcell
  · exact h.cells i

/-- The same result is kept. -/
theorem kept (h : Exchanged other store double) (hsame : double.child? c = store.child? c)
    (fragment : Json) (result : Except LoadError SchemaId) :
    Exchanged other (store.kept c fragment result) (double.kept c fragment result) := by
  cases hc : store.child? c with
  | none =>
      rw [hc] at hsame
      simp only [Store.kept, setContent, hc, hsame]
      exact h
  | some child =>
      rw [hc] at hsame
      refine ⟨by simp [Store.kept, setContent, hc, hsame, h.size], fun i => ?_⟩
      rw [cell_kept hc, cell_kept hsame]
      split
      · exact .some (.same _)
      · exact h.cells i

end Exchanged

/-- Two computations that give the same in doubles and leave doubles behind. -/
def Coupled (other : Fragment → OrderedMap Json) (x y : StateM Store α) : Prop :=
  ∀ store double, Exchanged other store double → (y double).1 = (x store).1 ∧
    Exchanged other (x store).2 (y double).2

namespace Coupled

variable {x y : StateM Store α}

theorem pure (a : α) : Coupled other (Pure.pure a) (Pure.pure a) :=
  fun _ _ h => ⟨rfl, h⟩

theorem bind {f g : α → StateM Store β} (h : Coupled other x y)
    (h' : ∀ a, Coupled other (f a) (g a)) : Coupled other (x >>= f) (y >>= g) := by
  intro store double hdouble
  obtain ⟨hanswer, hdouble'⟩ := h store double hdouble
  have hnext := h' (x store).1 _ _ hdouble'
  show (g (y double).1 (y double).2).1 = _ ∧ Exchanged other _ (g (y double).1 (y double).2).2
  rw [hanswer]
  exact hnext

/-- The same is done to each item of a list and to what stands for it in another. -/
theorem mapM {act : α → StateM Store γ} {act' : β → StateM Store γ} {g : α → β}
    (h : ∀ a, Coupled other (act a) (act' (g a))) (xs : List α) :
    Coupled other (xs.mapM act) ((xs.map g).mapM act') := by
  induction xs with
  | nil => exact pure []
  | cons a rest ih =>
      rw [List.map_cons, List.mapM_cons, List.mapM_cons]
      exact (h a).bind fun b => ih.bind fun bs => pure (b :: bs)

section Traverse

variable {act act' : Fragment → StateM Store ChildId} {g : Fragment → Fragment}
  (h : ∀ f, Coupled other (act f) (act' (g f)))
include h

theorem traverseElements (field : Option (Source.Field (List (Element Fragment)))) :
    Coupled other (Schema.traverseElements act field)
      (Schema.traverseElements act' (Schema.mapElements g field)) := by
  cases field with
  | none => exact pure none
  | some field =>
      exact (mapM (fun e => (h e.value).bind fun c => pure _) field.value).bind fun _ => pure _

theorem traverseEntries (field : Option (Source.Field (List (Entry Fragment)))) :
    Coupled other (Schema.traverseEntries act field)
      (Schema.traverseEntries act' (Schema.mapEntries g field)) := by
  cases field with
  | none => exact pure none
  | some field =>
      exact (mapM (fun e => (h e.value).bind fun c => pure _) field.value).bind fun _ => pure _

theorem traverse (s : Schema Fragment) :
    Coupled other (s.traverse act) ((s.map g).traverse act') := by
  refine (traverseElements h s.allOf).bind fun _ => ?_
  refine (traverseElements h s.oneOf).bind fun _ => ?_
  refine (traverseElements h s.anyOf).bind fun _ => ?_
  refine (traverseElements h s.not).bind fun _ => ?_
  refine (traverseElements h s.items).bind fun _ => ?_
  exact (traverseEntries h s.properties).bind fun _ => pure _

end Traverse

theorem addSchema (s : Schema ChildId) : Coupled other (addSchema s) (addSchema s) :=
  fun _ _ h => ⟨congrArg SchemaId.mk h.size, h.push (.same _)⟩

theorem addChild (child : Child) : Coupled other (addChild child) (addChild child) :=
  fun _ _ h => ⟨congrArg ChildId.mk h.size, h.push (.same _)⟩

theorem addFragment (f : Fragment) : Coupled other (addFragment f) (addFragment f) :=
  addChild _

/-- A schema is stored as well with other objects for its nested schemas. -/
theorem add_map (s : Schema Fragment) :
    Coupled other (add s) (add (s.map (Fragment.exchange other))) :=
  (traverse (fun f _ _ h => ⟨congrArg ChildId.mk h.size, h.push (.other f none)⟩) s).bind addSchema

theorem add (s : Schema Fragment) : Coupled other (Store.add s) (Store.add s) := by
  have hsame : Coupled other _ _ := traverse (g := id) addFragment s
  rw [s.map_id] at hsame
  exact hsame.bind addSchema

end Coupled

namespace Exchanged

/-- A child that is the same answers the same, and leaves doubles. -/
theorem schemaOf (h : Exchanged other store double) (hsame : double.child? c = store.child? c) :
    (schemaOf c double).1 = (schemaOf c store).1 ∧
      Exchanged other (schemaOf c store).2 (schemaOf c double).2 := by
  have hchild : double.child c = store.child c := by rw [child, child, hsame]
  cases hcontent : (store.child c).content with
  | built id =>
      rw [schemaOf_built hcontent, schemaOf_built (hchild ▸ hcontent)]
      exact ⟨rfl, h⟩
  | deferred fragment result =>
      have hcontent' : (double.child c).content = .deferred fragment result := hchild ▸ hcontent
      cases result with
      | some result =>
          rw [schemaOf_kept hcontent, schemaOf_kept hcontent']
          exact ⟨rfl, h⟩
      | none =>
          cases hbuild : Fragment.build ⟨(store.child c).origin, fragment⟩ with
          | error e =>
              rw [schemaOf_error hcontent hbuild, schemaOf_error hcontent' (hchild ▸ hbuild)]
              exact ⟨rfl, h.kept hsame fragment (.error e)⟩
          | ok s =>
              rw [schemaOf_ok hcontent hbuild, schemaOf_ok hcontent' (hchild ▸ hbuild)]
              obtain ⟨hid, hadded⟩ := Coupled.add s store double h
              rw [hid]
              refine ⟨rfl, hadded.kept ?_ fragment _⟩
              cases hc : store.child? c with
              | none =>
                  rw [child, hc] at hcontent hbuild
                  cases hcontent
                  cases hbuild
              | some child =>
                  rw [(add_spec s store trivial).1.children c child hc,
                    (add_spec s double trivial).1.children c child (hsame.trans hc)]

theorem kept?_eq (h : Exchanged other store double) (c : ChildId) :
    double.kept? c = store.kept? c := by
  unfold Store.kept?
  rcases h.child? c with hsame | ⟨f, result, hc, hc'⟩
  · rw [hsame]
  · rw [hc, hc']
    rfl

end Exchanged

def Use.exchange (other : Fragment → OrderedMap Json) : Use → Use
  | .load p v => .load p (Source.exchange other p v)
  | use => use

/-- A use that has to do with no child that was there before. -/
def Use.Blind : Use → Prop
  | .load _ _ | .view _ _ _ | .sameView _ _ | .make _ | .wrap _ _ | .defer _ => True
  | _ => False

/-- What has to do with no child can be done with doubles alike. -/
theorem Does.exchanged {use : Use} {answer : use.Answer} (h : Does store use answer store')
    (hdouble : Exchanged other store double) (hblind : use.Blind) :
    ∃ answer' double', Does double (use.exchange other) answer' double' ∧
      Exchanged other store' double' := by
  cases h with
  | @loaded p v s accepted =>
      refine ⟨_, _, .loaded ?_, (Coupled.add_map s store double hdouble).2⟩
      rw [Source.load_exchange, accepted]
      rfl
  | @refused p v e refused =>
      refine ⟨_, _, .refused (e := e) ?_, hdouble⟩
      rw [Source.load_exchange, refused]
      rfl
  | @viewed id workers limit result assembled =>
      exact ⟨_, _, .viewed (hdouble.schema_eq id ▸ assembled), hdouble⟩
  | sameView a b => exact ⟨_, _, .sameView a b, hdouble⟩
  | made s => exact ⟨_, _, .made s, (Coupled.addSchema s store double hdouble).2⟩
  | wrapped origin id =>
      exact ⟨_, _, .wrapped origin id, (Coupled.addChild _ store double hdouble).2⟩
  | deferred f => exact ⟨_, _, .deferred f, (Coupled.addFragment f store double hdouble).2⟩
  | _ => exact hblind.elim

theorem Runs.exchanged {uses : List Use} (h : Runs store uses store')
    (hdouble : Exchanged other store double) (hblind : ∀ use ∈ uses, use.Blind) :
    ∃ double', Runs double (uses.map (Use.exchange other)) double' ∧
      Exchanged other store' double' := by
  induction h generalizing double with
  | done => exact ⟨double, .done, hdouble⟩
  | next does _ ih =>
      obtain ⟨huse, huses⟩ := List.forall_mem_cons.mp hblind
      obtain ⟨_, _, does', hdouble'⟩ := does.exchanged hdouble huse
      obtain ⟨double', further, hend⟩ := ih hdouble' huses
      exact ⟨double', .next does' further, hend⟩

/-- Whatever is done with a store, only a child that is asked for its schema gets a result. -/
structure FillsOnlyAsked (store : Store) : Prop where
  spares : ∀ {use : Use} {answer : use.Answer} {store' : Store}, Does store use answer store' →
    Spares use.asked? store store'
  filled : ∀ {use : Use} {answer : use.Answer} {store' : Store}, Does store use answer store' →
    ∀ c, store'.kept? c = store.kept? c ∨
      use.asked? = some c ∧ store.kept? c = none ∧ ∃ result, store'.kept? c = some result
  /-- The result is what the child answers. -/
  answer : ∀ c f, store.fragment? c = some f →
    (schemaOf c store).2.kept? c = some (schemaOf c store).1
  /-- A machine that opens a handle asks the child behind it, and nothing else. -/
  opened : ∀ (host : Host) (handle : Handle),
    Spares (some handle.child) store (host.openHandle handle store).2
  lasting : ∀ {uses store'}, Runs store uses store' → ∀ c result, store.kept? c = some result →
    store'.kept? c = some result
  caused : ∀ {uses store'}, Runs store uses store' → ∀ c result, store.kept? c = none →
    store'.kept? c = some result → ∃ use ∈ uses, use.asked? = some c
  untouched : ∀ {uses store'}, Runs store uses store' → ∀ c child, store.child? c = some child →
    (∀ use ∈ uses, use.asked? ≠ some c) → store'.child? c = some child

/-- Nobody looks into nested schemas that are not asked: with other objects in their place, what is
loaded, stored and viewed is the same but for these. -/
structure Overlooks (other : Fragment → OrderedMap Json) : Prop where
  loaded : ∀ p v, load p (Source.exchange other p v) =
    (load p v).map (Schema.map (Fragment.exchange other))
  same : ∀ store, Exchanged other store store
  stored : ∀ {store double} s, Exchanged other store double →
    (add (s.map (Fragment.exchange other)) double).1 = (add s store).1 ∧
      Exchanged other (add s store).2 (add (s.map (Fragment.exchange other)) double).2
  schemas : ∀ {store double}, Exchanged other store double → ∀ id,
    double.schema? id = store.schema? id
  viewed : ∀ {store double}, Exchanged other store double → ∀ id workers limit result,
    Assembly.Assembles workers limit id (double.schema id) result ↔
      Assembly.Assembles workers limit id (store.schema id) result
  /-- A machine makes the same view. -/
  machine : ∀ {store double}, Exchanged other store double → ∀ (host : Host) own id,
    host.view own id double = host.view own id store
  children : ∀ {store double}, Exchanged other store double → ∀ c,
    (double.child? c = store.child? c ∨ ∃ (f : Fragment) (result : _),
      store.child? c = some ⟨f.origin, .deferred f.value result⟩ ∧
        double.child? c = some ⟨f.origin, .deferred (f.exchange other).value result⟩) ∧
      double.kept? c = store.kept? c
  /-- A child that is the same answers the same. -/
  asked : ∀ {store double c}, Exchanged other store double → double.child? c = store.child? c →
    (schemaOf c double).1 = (schemaOf c store).1 ∧
      Exchanged other (schemaOf c store).2 (schemaOf c double).2
  runs : ∀ {store store' double uses}, Exchanged other store double → Runs store uses store' →
    (∀ use ∈ uses, use.Blind) → ∃ double', Runs double (uses.map (Use.exchange other)) double' ∧
      Exchanged other store' double'

theorem fillsOnlyAsked (store : Store) : store.FillsOnlyAsked where
  spares h := h.spares
  filled h := h.spares.kept?
  answer c f hfragment := kept?_schemaOf hfragment
  opened host handle := by
    rw [Host.openHandle_eq]
    exact schemaOf_spares handle.child store
  lasting h c result := h.kept?
  caused h c result := h.asked
  untouched h c child := h.child?

theorem overlooks (other : Fragment → OrderedMap Json) : Overlooks other where
  loaded := Source.load_exchange other
  same := Exchanged.refl other
  stored s h := Coupled.add_map s _ _ h
  schemas h := h.schema?_eq
  viewed h id workers limit result := by rw [h.schema_eq]
  machine h host own id := by
    unfold Host.view
    rw [h.schema_eq]
  children h c := ⟨h.child? c, h.kept?_eq c⟩
  asked h := h.schemaOf
  runs hdouble h := h.exchanged hdouble

/-- Children are left alone until they are asked for their schemas: nobody else gives them a result,
be it use by use or move by move, and nobody looks into them. -/
theorem children_left_alone :
    (∀ store : Store, store.FillsOnlyAsked) ∧
      (∀ {v s s' i}, Sharing.State.Run v s → Sharing.State.Moves v i s s' → ∀ c,
        s'.store.kept? c = s.store.kept? c ∨
          s.store.kept? c = none ∧ ∃ wish result, s.threads i = .keeping c wish result ∧
            s'.store.kept? c = some result) ∧
      ∀ other, Overlooks other :=
  ⟨fillsOnlyAsked, fun hrun hmoves => hmoves.kept? hrun.guarded, overlooks⟩

/-- Other objects are put where nested schemas stand, also the lone ones, and nowhere else. -/
example : Source.exchange (fun f => [("$ref", .str f.origin.text)]) .root
    (.obj [("items", .obj [("title", .str "t")]), ("default", .obj []),
      ("allOf", .arr [.obj [], .null])]) =
    .obj [("items", .obj [("$ref", .str "/items")]), ("default", .obj []),
      ("allOf", .arr [.obj [("$ref", .str "/allOf/0")], .null])] := by
  rfl

end Store
end ApiSchema
