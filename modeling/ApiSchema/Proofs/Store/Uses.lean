import ApiSchema.Proofs.Sharing.Moves
import ApiSchema.Store.Description
import ApiSchema.Store.Equality
import ApiSchema.View.Equality

/-!
Only a child that is asked for its schema changes.

Documents are loaded, schemas viewed, children and handles asked for what is behind them, compared
and described, and schemas and children are made by hand. None of this gives a child a result but
asking that very child, and a child that has a result keeps it. So it is from use to use, and when
threads share the children it is so from move to move.
-/

namespace ApiSchema

open Source (Schema Fragment)

namespace Store

variable {store store' : Store} {c : ChildId} {child : Child} {whom? : Option ChildId}

/-- Something that is done with a store and with what is in it. -/
inductive Use where
  /-- A document is loaded. -/
  | load (p : Pointer) (v : Json)
  /-- A schema is viewed. -/
  | view (id : SchemaId) (workers : Nat) (limit : Option Duration)
  /-- A child is asked for its schema. -/
  | ask (c : ChildId)
  /-- A handle is asked for the view behind it. -/
  | enter (handle : Handle) (workers : Nat) (limit : Option Duration)
  /-- A child is asked for its target, or whether it has one. -/
  | reference (c : ChildId)
  | isReference (c : ChildId)
  /-- A child is described. -/
  | describe (c : ChildId)
  /-- Two things are compared. -/
  | sameChild (a b : ChildId)
  | sameSchema (a b : SchemaId)
  | sameView (a b : View)
  /-- A schema is made by hand, or a child, from a schema or from a fragment. -/
  | make (s : Schema ChildId)
  | wrap (origin : Pointer) (id : SchemaId)
  | defer (f : Fragment)

/-- What there is to learn from a use. -/
abbrev Use.Answer : Use → Type
  | .load _ _ | .ask _ => Except LoadError SchemaId
  | .view _ _ _ | .enter _ _ _ => Except Failure View
  | .reference _ => Option String
  | .isReference _ | .sameChild _ _ | .sameSchema _ _ | .sameView _ _ => Bool
  | .describe _ => String
  | .make _ => SchemaId
  | .wrap _ _ | .defer _ => ChildId

def Use.asked? : Use → Option ChildId
  | .ask c => some c
  | .enter handle _ _ => some handle.child
  | _ => none

/-- What becomes of a store in a use, with the answer. Views are made under every schedule. -/
inductive Does (store : Store) : (use : Use) → use.Answer → Store → Prop
  | loaded {p : Pointer} {v : Json} {s : Schema Fragment} (accepted : Source.load p v = .ok s) :
      Does store (.load p v) (.ok (add s store).1) (add s store).2
  | refused {p : Pointer} {v : Json} {e : LoadError} (refused : Source.load p v = .error e) :
      Does store (.load p v) (.error e) store
  | viewed {id : SchemaId} {workers : Nat} {limit : Option Duration} {result : Except Failure View}
      (assembled : Assembly.Assembles workers limit id (store.schema id) result) :
      Does store (.view id workers limit) result store
  | asked (c : ChildId) : Does store (.ask c) (schemaOf c store).1 (schemaOf c store).2
  | entered {handle : Handle} {workers : Nat} {limit : Option Duration} {id : SchemaId}
      {result : Except Failure View} (answer : (schemaOf handle.child store).1 = .ok id)
      (assembled : Assembly.Assembles workers limit id
        ((schemaOf handle.child store).2.schema id) result) :
      Does store (.enter handle workers limit) result (schemaOf handle.child store).2
  | shut {handle : Handle} {workers : Nat} {limit : Option Duration} {e : LoadError}
      (answer : (schemaOf handle.child store).1 = .error e) :
      Does store (.enter handle workers limit) (.error (.build e)) (schemaOf handle.child store).2
  | reference (c : ChildId) : Does store (.reference c) (store.child c).reference? store
  | isReference (c : ChildId) :
      Does store (.isReference c) (store.child c).reference?.isSome store
  | describe (c : ChildId) : Does store (.describe c) (store.child c).description store
  | sameChild (a b : ChildId) : Does store (.sameChild a b) (store.sameChild a b) store
  | sameSchema (a b : SchemaId) : Does store (.sameSchema a b) (store.sameSchema a b) store
  | sameView (a b : View) : Does store (.sameView a b) (a.same b) store
  | made (s : Schema ChildId) : Does store (.make s) (addSchema s store).1 (addSchema s store).2
  | wrapped (origin : Pointer) (id : SchemaId) :
      Does store (.wrap origin id) (addChild ⟨origin, .built id⟩ store).1
        (addChild ⟨origin, .built id⟩ store).2
  | deferred (f : Fragment) : Does store (.defer f) (addFragment f store).1 (addFragment f store).2

/-- One use after the other. -/
inductive Runs : Store → List Use → Store → Prop
  | done {store : Store} : Runs store [] store
  | next {store store' store'' : Store} {use : Use} {uses : List Use} {answer : use.Answer}
      (does : Does store use answer store') (further : Runs store' uses store'') :
      Runs store (use :: uses) store''

/-- Nothing changes but the child that is asked, if any, and that only by getting a result. -/
structure Spares (whom? : Option ChildId) (store store' : Store) : Prop where
  schemas : ∀ id s, store.schema? id = some s → store'.schema? id = some s
  others : ∀ c child, store.child? c = some child → whom? ≠ some c → store'.child? c = some child
  asked : ∀ c child, store.child? c = some child →
    ∃ child', store'.child? c = some child' ∧ child.Becomes child'
  /-- New children keep no results. -/
  fresh : ∀ c child, store.child? c = none → store'.child? c = some child → child.Fresh

theorem Appends.spares (h : store.Appends store') : Spares whom? store store' where
  schemas := h.schemas
  others c child hc _ := h.children c child hc
  asked c child hc := ⟨child, h.children c child hc, .same⟩
  fresh c child hnone hc := by
    rcases h.fresh c child hc with hold | hfresh
    · cases hnone.symm.trans hold
    · exact hfresh

theorem schemaOf_spares (c : ChildId) (store : Store) :
    Spares (some c) store (schemaOf c store).2 := by
  have hstill : (schemaOf c store).2 = store → Spares (some c) store (schemaOf c store).2 :=
    fun hsame => by rw [hsame]; exact (Appends.refl store).spares
  cases hc : store.child? c with
  | none => exact hstill (schemaOf_missing hc)
  | some child =>
      have hchild := child_of_child? hc
      cases hcontent : child.content with
      | built id => exact hstill (by rw [schemaOf_built (by rw [hchild, hcontent])])
      | deferred fragment result =>
          have hshown : store.fragment? c = some ⟨child.origin, fragment⟩ := by
            rw [fragment?, hc, Option.bind_some, Child.fragment?, hcontent]
          cases hkept : store.kept? c with
          | some result => exact hstill (by rw [schemaOf_of_kept? hkept])
          | none =>
              have happends := build_appends ⟨child.origin, fragment⟩ store
              have hgrows := schemaOf_grows c store
              have hother : ∀ other, other ≠ c → (schemaOf c store).2.child? other =
                  (build ⟨child.origin, fragment⟩ store).2.child? other := by
                intro other hne
                rw [schemaOf_of_unkept hshown hkept, child?_kept (happends.children c child hc),
                  if_neg hne]
              refine ⟨hgrows.schemas, fun other child' hother' hne => ?_, hgrows.children,
                fun other child' hnone hnew => ?_⟩
              · rw [hother other fun heq => hne (congrArg some heq.symm)]
                exact happends.children other child' hother'
              · have hne : other ≠ c := by
                  rintro rfl
                  cases hnone.symm.trans hc
                rw [hother other hne] at hnew
                rcases happends.fresh other child' hnew with hold | hfresh
                · cases hnone.symm.trans hold
                · exact hfresh

/-- Whatever is done, nothing changes but the child that is asked. -/
theorem Does.spares {use : Use} {answer : use.Answer} (h : Does store use answer store') :
    Spares use.asked? store store' := by
  have hsame : Spares none store store := (Appends.refl store).spares
  cases h with
  | @loaded p v s _ => exact (add_spec s store trivial).1.spares
  | asked c => exact schemaOf_spares c store
  | @entered handle _ _ _ _ _ _ => exact schemaOf_spares handle.child store
  | @shut handle _ _ _ _ => exact schemaOf_spares handle.child store
  | made s => exact (addSchema_spec s store trivial).1.spares
  | wrapped origin id =>
      exact (addChild_spec (c := ⟨origin, .built id⟩) nofun store trivial).1.spares
  | deferred f => exact (addFragment_spec f store trivial).1.spares
  | _ => exact hsame

/-- A result comes to the child that is asked, and only where there is none. -/
theorem Spares.kept? (h : Spares whom? store store') (c : ChildId) :
    store'.kept? c = store.kept? c ∨
      whom? = some c ∧ store.kept? c = none ∧ ∃ result, store'.kept? c = some result := by
  unfold Store.kept?
  cases hc : store.child? c with
  | none =>
      cases hc' : store'.child? c with
      | none => exact Or.inl rfl
      | some child => exact Or.inl (h.fresh c child hc hc').kept?_eq
  | some child =>
      by_cases hasked : whom? = some c
      · obtain ⟨child', hc', hbecomes⟩ := h.asked c child hc
        rw [hc']
        cases hbecomes with
        | same => exact Or.inl rfl
        | built unbuilt result =>
            refine Or.inr ⟨hasked, ?_, result, rfl⟩
            rw [Option.bind_some, Child.kept?, unbuilt]
      · rw [h.others c child hc hasked]
        exact Or.inl rfl

/-- A deferred child keeps what it answers. -/
theorem kept?_schemaOf {g : Fragment} (hfragment : store.fragment? c = some g) :
    (schemaOf c store).2.kept? c = some (schemaOf c store).1 := by
  cases hkept : store.kept? c with
  | some result =>
      rw [schemaOf_of_kept? hkept]
      exact hkept
  | none =>
      rw [schemaOf_of_unkept hfragment hkept,
        kept?_kept ((build_appends g store).grows.fragment? hfragment), if_pos rfl]

namespace Runs

variable {uses : List Use} {result : Except LoadError SchemaId}

/-- A result is never lost, and never another. -/
theorem kept? (h : Runs store uses store') (hkept : store.kept? c = some result) :
    store'.kept? c = some result := by
  induction h with
  | done => exact hkept
  | next does _ ih =>
      rcases does.spares.kept? c with hsame | ⟨_, hnone, _⟩
      · exact ih (hsame.trans hkept)
      · cases hnone.symm.trans hkept

/-- A child that nobody asks stays as it is. -/
theorem child? (h : Runs store uses store') (hc : store.child? c = some child)
    (hunasked : ∀ use ∈ uses, use.asked? ≠ some c) : store'.child? c = some child := by
  induction h with
  | done => exact hc
  | next does _ ih =>
      obtain ⟨huse, huses⟩ := List.forall_mem_cons.mp hunasked
      exact ih (does.spares.others c child hc huse) huses

/-- A result comes from asking the child. -/
theorem asked (h : Runs store uses store') (hnone : store.kept? c = none)
    (hkept : store'.kept? c = some result) : ∃ use ∈ uses, use.asked? = some c := by
  induction h with
  | done => cases hnone.symm.trans hkept
  | @next store _ _ use _ _ does _ ih =>
      rcases does.spares.kept? c with hsame | ⟨hasked, _⟩
      · obtain ⟨use', hmem, hasked⟩ := ih (hsame.trans hnone) hkept
        exact ⟨use', List.mem_cons_of_mem use hmem, hasked⟩
      · exact ⟨use, List.mem_cons_self, hasked⟩

end Runs
end Store

namespace Sharing.State

variable {s s' : State} {v : Json} {i : Nat} {c : ChildId}

theorem Run.guarded (h : Run v s) : s.Guarded := by
  induction h with
  | start => exact .start
  | next _ moves ih => exact ih.moves moves

/-- Among threads, too, a result comes to a child only from a thread that has asked it. -/
theorem Moves.kept? (h : Moves v i s s') (hguarded : s.Guarded) (c : ChildId) :
    s'.store.kept? c = s.store.kept? c ∨
      s.store.kept? c = none ∧ ∃ wish result, s.threads i = .keeping c wish result ∧
        s'.store.kept? c = some result := by
  cases h with
  | @load schema _ _ => exact Or.inl ((Store.add_spec schema s.store trivial).1.kept?_eq c)
  | build _ _ => exact Or.inl ((Store.build_appends _ _).kept?_eq c)
  | elsewhere appends => exact Or.inl (appends.kept?_eq c)
  | @keep child wish result g keeping shown =>
      rw [Store.kept?_kept shown]
      by_cases hc : c = child
      · subst hc
        have htaken : (s.threads i).taken? = some (c, some result) := by rw [keeping]; rfl
        exact Or.inr ⟨hguarded.unkept i c _ htaken, wish, result, keeping, if_pos rfl⟩
      · exact Or.inl (if_neg hc)
  | _ => exact Or.inl rfl

end Sharing.State
end ApiSchema
