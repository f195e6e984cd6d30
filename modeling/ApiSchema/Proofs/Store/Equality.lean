import ApiSchema.Proofs.Source.Equality
import ApiSchema.Proofs.Store.Making
import ApiSchema.Store.Equality

/-!
Equality of schemas and children in a store is an equivalence, and it does not see what has been
built.

Two children made from schemas are equal if the schemas are, and the children of those are older. So
every fact about equality is proved for a child once it is known for all older ones.
-/

namespace ApiSchema

open Source (Schema Fragment)

namespace Content

variable {P : SchemaId → Prop} {sameId : SchemaId → SchemaId → Bool} {x : Content}

def same (sameId : SchemaId → SchemaId → Bool) : Content → Content → Bool
  | .built s, .built t => s == t || sameId s t
  | .deferred f _, .deferred g _ => f.same g
  | _, _ => false

/-- A fragment that can be there, or a schema with a property. -/
def Proper (P : SchemaId → Prop) : Content → Prop
  | .built id => P id
  | .deferred fragment _ => fragment.Genuine

theorem Proper.mono {Q : SchemaId → Prop} (h : x.Proper P)
    (hPQ : ∀ s, x = .built s → P s → Q s) : x.Proper Q := by
  cases x with
  | built s => exact hPQ s rfl h
  | deferred fragment result => exact h

theorem equivalenceAt (h : x.Proper (EquivalenceAt P sameId)) :
    EquivalenceAt (Proper P) (same sameId) x := by
  cases x with
  | built s =>
      refine (EquivalenceAt.shortcut h).embed Content.built (fun _ _ => rfl) (fun _ y hy => ?_)
        fun _ => id
      cases y with
      | built t => exact ⟨t, rfl⟩
      | deferred fragment result => cases hy
  | deferred fragment result =>
      let make : Json × Option (Except LoadError SchemaId) → Content := fun p => .deferred p.1 p.2
      have hfragment : EquivalenceAt (fun p => p.1.Genuine) (fun p q => p.1.same q.1)
          (fragment, result) :=
        .comap Prod.fst (Json.Genuine.equivalenceAt h) fun _ => id
      refine hfragment.embed make (fun _ _ => rfl) (fun _ y hy => ?_) fun _ => id
      cases y with
      | built t => cases hy
      | deferred fragment' result' => exact ⟨(fragment', result'), rfl⟩

end Content

namespace Child

variable {sameId sameId' : SchemaId → SchemaId → Bool} {x x' y y' : Child}

def same (sameId : SchemaId → SchemaId → Bool) (x y : Child) : Bool :=
  x.origin == y.origin && x.content.same sameId y.content

/-- Equality of children depends on schemas only as far as the two are made from some, and not on
the results that they keep. -/
theorem Becomes.same_eq (hx : x.Becomes x') (hy : y.Becomes y')
    (h : ∀ s t, x.content = .built s → y.content = .built t → sameId' s t = sameId s t) :
    x'.same sameId' y' = x.same sameId y := by
  have hcontent : x'.content.same sameId' y'.content = x.content.same sameId y.content := by
    cases hx with
    | same =>
        cases hy with
        | same =>
            cases hx : x.content with
            | built s =>
                cases hy : y.content with
                | built t => rw [Content.same, Content.same, h s t hx hy]
                | deferred _ _ => rfl
            | deferred _ _ => cases y.content <;> rfl
        | built unbuilt result =>
            rw [unbuilt]
            cases x.content <;> rfl
    | built unbuilt result =>
        rw [unbuilt]
        cases hy with
        | same => cases y.content <;> rfl
        | built unbuilt' result' => rw [unbuilt']; rfl
  have horigin : x'.origin = x.origin ∧ y'.origin = y.origin := by
    constructor
    · cases hx <;> rfl
    · cases hy <;> rfl
  rw [Child.same, Child.same, hcontent, horigin.1, horigin.2]

end Child

namespace Store

variable {store store' : Store} {a b c : ChildId}

theorem sameChildWithin_succ (store : Store) (depth : Nat) (a b : ChildId) :
    store.sameChildWithin (depth + 1) a b =
      (store.child a).same
        (fun s t => (store.schema s).same (store.sameChildWithin depth) (store.schema t))
        (store.child b) := by
  rw [sameChildWithin, Child.same]
  cases (store.child a).content <;> cases (store.child b).content <;> rfl

theorem Grows.schema_eq (hgrows : store.Grows store') {id : SchemaId} {s : Schema ChildId}
    (hs : store.schema? id = some s) : store'.schema id = store.schema id := by
  rw [schema_of_schema? hs, schema_of_schema? (hgrows.schemas id s hs)]

/-- The schemas behind two children are compared as before, if their children are. -/
theorem same_schemas_congr (horderly : store.Orderly) (hgrows : store.Grows store')
    {x y : Child} (hx : store.child? a = some x) (hy : store.child? b = some y) {s t : SchemaId}
    (hs : x.content = .built s) (ht : y.content = .built t) {f g : ChildId → ChildId → Bool}
    (hchild : ∀ c d, c.address + 1 < a.address → store.Has c → store.Has d → f c d = g c d) :
    (store'.schema s).same f (store'.schema t) = (store.schema s).same g (store.schema t) := by
  obtain ⟨xOrigin, xContent⟩ := x
  obtain ⟨yOrigin, yContent⟩ := y
  cases hs
  cases ht
  obtain ⟨⟨u, hu⟩, hage⟩ := horderly.built hx
  obtain ⟨⟨v, hv⟩, _⟩ := horderly.built hy
  rw [hgrows.schema_eq hu, hgrows.schema_eq hv, schema_of_schema? hu, schema_of_schema? hv]
  refine Schema.same_congr fun c d hc hd => ?_
  obtain ⟨hhas, hold⟩ := horderly.child hu hc
  exact hchild c d (by omega) hhas (horderly.child hv hd).1

/-- Equality of two children is the same in all later states of a store, as long as it is traced
down far enough. -/
theorem sameChildWithin_congr (horderly : store.Orderly) (hgrows : store.Grows store')
    {depth depth' : Nat} (hdepth : a.address < depth) (hdepth' : a.address < depth')
    (ha : store.Has a) (hb : store.Has b) :
    store'.sameChildWithin depth' a b = store.sameChildWithin depth a b := by
  induction depth generalizing depth' a b with
  | zero => omega
  | succ depth ih =>
      obtain ⟨depth', rfl⟩ : ∃ n, depth' = n + 1 := ⟨depth' - 1, by omega⟩
      obtain ⟨x, hx⟩ := ha
      obtain ⟨y, hy⟩ := hb
      obtain ⟨x', hx', hxx⟩ := hgrows.children a x hx
      obtain ⟨y', hy', hyy⟩ := hgrows.children b y hy
      rw [sameChildWithin_succ, sameChildWithin_succ, child_of_child? hx, child_of_child? hy,
        child_of_child? hx', child_of_child? hy']
      refine hxx.same_eq hyy fun s t hs ht => ?_
      refine same_schemas_congr horderly hgrows hx hy hs ht fun c d hage hc hd => ?_
      exact ih (by omega) (by omega) hc hd

/-- The depth to which equality is traced is no part of it. -/
theorem sameChild_eq (horderly : store.Orderly) (ha : store.Has a) (hb : store.Has b) :
    store.sameChild a b = (store.child a).same store.sameSchema (store.child b) := by
  obtain ⟨x, hx⟩ := ha
  obtain ⟨y, hy⟩ := hb
  have hsize := Has.address_lt ⟨x, hx⟩
  rw [sameChild, sameChildWithin_succ, child_of_child? hx, child_of_child? hy]
  refine Child.Becomes.same.same_eq .same fun s t hs ht => ?_
  refine same_schemas_congr horderly (.refl store) hx hy hs ht fun c d hage hc hd => ?_
  exact sameChildWithin_congr horderly (.refl store) (by omega) (by omega) hc hd

/-- No number in the schemas that are seen from a child is a not-a-number. What a deferred child
would be built to is not seen. -/
inductive Numeric (store : Store) : ChildId → Prop
  | deferred {c : ChildId} {f : Fragment} (shown : store.fragment? c = some f) : Numeric store c
  | built {c : ChildId} {origin : Pointer} {id : SchemaId} {s : Schema ChildId}
      (here : store.child? c = some ⟨origin, .built id⟩) (behind : store.schema? id = some s)
      (numbers : ∀ x, s.Holds (.number x) → x.isNan = false)
      (children : ∀ c, s.Holds (.nested c) → Numeric store c) : Numeric store c

/-- A child sees no not-a-number in a store that has none in any schema. -/
theorem Has.numeric (horderly : store.Orderly)
    (hnumbers : ∀ id s x, store.schema? id = some s → s.Holds (.number x) → x.isNan = false)
    {age : Nat} (hage : c.address < age) (h : store.Has c) : store.Numeric c := by
  induction age generalizing c with
  | zero => omega
  | succ age ih =>
      obtain ⟨⟨origin, content⟩, hc⟩ := h
      cases content with
      | deferred fragment result =>
          exact .deferred (f := ⟨origin, fragment⟩) (by rw [fragment?, hc]; rfl)
      | built id =>
          obtain ⟨⟨s, hs⟩, hbehind⟩ := horderly.built hc
          refine .built hc hs (fun x => hnumbers id s x hs) fun d hd => ?_
          obtain ⟨hhas, hold⟩ := horderly.child hs hd
          exact ih (by omega) hhas

/-- The schema at an address is there, and no number seen from it is a not-a-number. -/
def NumericSchema (store : Store) (id : SchemaId) : Prop :=
  ∃ s, store.schema? id = some s ∧ s.Proper store.Numeric

theorem Numeric.has (h : store.Numeric c) : store.Has c := by
  cases h with
  | deferred shown => exact has_of_fragment? shown
  | built here _ _ _ => exact ⟨_, here⟩

theorem Numeric.proper (horderly : store.Orderly) (h : store.Numeric c) :
    (store.child c).content.Proper store.NumericSchema := by
  cases h with
  | deferred shown =>
      have hgenuine := horderly.fragment shown
      obtain ⟨⟨origin, content⟩, hc, hshown⟩ := Option.bind_eq_some_iff.mp shown
      rw [child_of_child? hc]
      cases content with
      | built s => cases hshown
      | deferred fragment result =>
          cases hshown
          exact hgenuine
  | built here behind numbers children =>
      rw [child_of_child? here]
      refine ⟨_, behind, fun part hpart => ?_⟩
      cases part with
      | nested c => exact children c hpart
      | number x => exact numbers x hpart
      | value v => exact horderly.value behind hpart

/-- Comparing schemas is an equivalence if comparing their children is. -/
theorem equivalenceAt_schema {id : SchemaId} {s : Schema ChildId} (hs : store.schema? id = some s)
    (h : s.Proper (EquivalenceAt store.Numeric store.sameChild)) :
    EquivalenceAt store.NumericSchema store.sameSchema id := by
  refine .comap store.schema ?_ fun id' ⟨t, ht, hproper⟩ => schema_of_schema? ht ▸ hproper
  rw [schema_of_schema? hs]
  exact Schema.equivalenceAt h

/-- Comparing children is an equivalence, by induction on their age. -/
theorem equivalenceAt_child (horderly : store.Orderly) {age : Nat} (hage : c.address < age)
    (h : store.Numeric c) : EquivalenceAt store.Numeric store.sameChild c := by
  induction age generalizing c with
  | zero => omega
  | succ age ih =>
      have hcontent : (store.child c).content.Proper
          (EquivalenceAt store.NumericSchema store.sameSchema) := by
        refine (h.proper horderly).mono fun id hid ⟨s, hs, hproper⟩ => ?_
        refine equivalenceAt_schema hs fun part hpart => ?_
        cases part with
        | nested d =>
            obtain ⟨⟨origin, content⟩, hx⟩ := h.has
            rw [child_of_child? hx] at hid
            cases hid
            have hchild := (horderly.child hs hpart).2
            have hbehind := (horderly.built hx).2
            exact ih (by omega) (hproper _ hpart)
        | number x => exact hproper _ hpart
        | value v => exact hproper _ hpart
      have hchild : EquivalenceAt store.Numeric
          (fun a b => (store.child a).same store.sameSchema (store.child b)) c :=
        .and (.beq (fun a => (store.child a).origin) c)
          (.comap (fun a => (store.child a).content) (Content.equivalenceAt hcontent)
            fun a ha => ha.proper horderly)
      exact hchild.congr h fun a b ha hb => sameChild_eq horderly ha.has hb.has

/-- Children are asked for their schemas one after another. -/
def askAll (store : Store) (asks : List ChildId) : Store :=
  asks.foldl (fun store c => (schemaOf c store).2) store

theorem askAll_grows (store : Store) (asks : List ChildId) : store.Grows (store.askAll asks) := by
  induction asks generalizing store with
  | nil => exact .refl store
  | cons c asks ih => exact (schemaOf_grows c store).trans (ih _)

/-- Equality of two children is the same in all later states of a store. -/
theorem Grows.sameChild_eq (horderly : store.Orderly) (hgrows : store.Grows store')
    (ha : store.Has a) (hb : store.Has b) : store'.sameChild a b = store.sameChild a b := by
  have hsize := ha.address_lt
  have hsize' := (ha.grows hgrows).address_lt
  exact sameChildWithin_congr horderly hgrows (by omega) (by omega) ha hb

/-- Equality is an equivalence as long as no number that it compares is a not-a-number, on children
and on schemas, stored or not. And it is not changed by asking children for their schemas. -/
theorem Made.equality_lawful (h : store.Made) :
    (∀ c, store.Numeric c → EquivalenceAt store.Numeric store.sameChild c) ∧
      (∀ s : Schema ChildId, s.Proper store.Numeric →
        EquivalenceAt (Schema.Proper store.Numeric) (Schema.same store.sameChild) s) ∧
      (∀ id, store.NumericSchema id →
        EquivalenceAt store.NumericSchema store.sameSchema id) ∧
      ∀ asks : List ChildId,
        (∀ a b, store.Has a → store.Has b →
          (store.askAll asks).sameChild a b = store.sameChild a b) ∧
        (∀ s t : Schema ChildId, (∀ c, s.Holds (.nested c) → store.Has c) →
          (∀ c, t.Holds (.nested c) → store.Has c) →
          s.same (store.askAll asks).sameChild t = s.same store.sameChild t) ∧
        ∀ i j s t, store.schema? i = some s → store.schema? j = some t →
          (store.askAll asks).sameSchema i j = store.sameSchema i j := by
  have horderly := h.orderly
  have hchild : ∀ c, store.Numeric c → EquivalenceAt store.Numeric store.sameChild c :=
    fun c hc => equivalenceAt_child horderly (Nat.lt_succ_self c.address) hc
  have hschema : ∀ s : Schema ChildId, s.Proper store.Numeric →
      s.Proper (EquivalenceAt store.Numeric store.sameChild) :=
    fun s hs part hpart => (hs part hpart).mono hchild
  refine ⟨hchild, fun s hs => Schema.equivalenceAt (hschema s hs),
    fun id ⟨s, hs, hproper⟩ => equivalenceAt_schema hs (hschema s hproper), fun asks => ?_⟩
  have hgrows := store.askAll_grows asks
  have hvalues : ∀ s t : Schema ChildId, (∀ c, s.Holds (.nested c) → store.Has c) →
      (∀ c, t.Holds (.nested c) → store.Has c) →
      s.same (store.askAll asks).sameChild t = s.same store.sameChild t :=
    fun s t hs ht => Schema.same_congr fun c d hc hd =>
      hgrows.sameChild_eq horderly (hs c hc) (ht d hd)
  refine ⟨fun a b => hgrows.sameChild_eq horderly, hvalues, fun i j s t hi hj => ?_⟩
  rw [sameSchema, sameSchema, hgrows.schema_eq hi, hgrows.schema_eq hj, schema_of_schema? hi,
    schema_of_schema? hj]
  exact hvalues s t (fun c hc => (horderly.child hi hc).1) fun c hc => (horderly.child hj hc).1

/-- Two schemas that bound a number by zero, with either sign, each nested in a schema of its own,
and a deferred child. -/
def zeros : Store :=
  let make : StateM Store Unit := do
    let zero ← addSchema { maximum := some (.detached ⟨0⟩) }
    let plus ← addChild ⟨.root, .built zero⟩
    let minusZero ← addSchema { maximum := some (.detached ⟨0x8000000000000000⟩) }
    let minus ← addChild ⟨.root, .built minusZero⟩
    let above ← addSchema { items := some (.detached [⟨plus, .root⟩]) }
    let _ ← addChild ⟨.root, .built above⟩
    let below ← addSchema { items := some (.detached [⟨minus, .root⟩]) }
    let _ ← addChild ⟨.root, .built below⟩
    let _ ← addFragment ⟨.root, .obj []⟩
  (make {}).2

theorem holds_maximum {x : Binary64} {part : Source.Part ChildId}
    (h : ({ maximum := some (.detached x) } : Schema ChildId).Holds part) : part = .number x := by
  cases h with
  | @field k field here holds =>
      cases k <;> cases here
      exact holds
  | @extension e mem value => cases mem

theorem holds_items {c : ChildId} {part : Source.Part ChildId}
    (h : ({ items := some (.detached [⟨c, .root⟩]) } : Schema ChildId).Holds part) :
    part = .nested c := by
  cases h with
  | @field k field here holds =>
      cases k <;> cases here
      obtain ⟨e, he, rfl⟩ := holds
      rw [List.mem_singleton.mp he]
  | @extension e mem value => cases mem

theorem made_zeros : zeros.Made := by
  have hbound : ∀ {store : Store} (x : Binary64), store.Made →
      Made (addSchema { maximum := some (.detached x) } store).2 := by
    intro store x h
    refine h.schema (fun c hc => ?_) fun v hv => ?_
    · cases holds_maximum hc
    · cases holds_maximum hv
  have hitems : ∀ {store : Store} (c : ChildId), store.Has c → store.Made →
      Made (addSchema { items := some (.detached [⟨c, .root⟩]) } store).2 := by
    intro store c hhas h
    refine h.schema (fun d hd => ?_) fun v hv => ?_
    · cases holds_items hd
      exact hhas
    · cases holds_items hv
  have hplus := (hbound ⟨0⟩ Made.empty).wrap ⟨0⟩ .root rfl
  have hminus := (hbound ⟨0x8000000000000000⟩ hplus).wrap ⟨2⟩ .root rfl
  have habove := (hitems ⟨1⟩ ⟨_, rfl⟩ hminus).wrap ⟨4⟩ .root rfl
  have hbelow := (hitems ⟨3⟩ ⟨_, rfl⟩ habove).wrap ⟨6⟩ .root rfl
  exact hbelow.defer (f := ⟨.root, .obj []⟩) ⟨by decide, rfl⟩

theorem numeric_zeros (address : Nat) (h : zeros.Has ⟨address⟩) : zeros.Numeric ⟨address⟩ := by
  refine h.numeric made_zeros.orderly (fun ⟨i⟩ s x hs hx => ?_) (Nat.lt_succ_self address)
  have hi : i < 9 := schema?_lt hs
  match i, hi with
  | 0, _ | 2, _ =>
      cases hs
      cases holds_maximum hx
      rfl
  | 4, _ | 6, _ =>
      cases hs
      cases holds_items hx
  | 1, _ | 3, _ | 5, _ | 7, _ | 8, _ => cases hs

theorem Made.equality_lawful_zeros : zeros.Made ∧ zeros.Numeric ⟨5⟩ ∧ zeros.Numeric ⟨7⟩ ∧
    zeros.sameChild ⟨7⟩ ⟨5⟩ = true ∧ (zeros.askAll [⟨8⟩]).sameChild ⟨5⟩ ⟨7⟩ = true := by
  obtain ⟨hchild, _, _, hasks⟩ := Made.equality_lawful made_zeros
  have hfive := numeric_zeros 5 ⟨_, rfl⟩
  have hseven := numeric_zeros 7 ⟨_, rfl⟩
  have hsame : zeros.sameChild ⟨5⟩ ⟨7⟩ = true := by rfl
  refine ⟨made_zeros, hfive, hseven, (hchild _ hfive).symm _ hseven hsame, ?_⟩
  rw [(hasks [⟨8⟩]).1 ⟨5⟩ ⟨7⟩ hfive.has hseven.has, hsame]

end Store
end ApiSchema
