import ApiSchema.Assembly.Run

/-!
From view to view: opening handles and following paths.

Opening a handle builds the schema behind its child, if that has not been done, and assembles a
fresh view of it. `walk` follows a path of steps from one view to another. `expand` opens every
handle down to a given depth; references and malformed schemas end a branch with their failure.
-/

namespace ApiSchema

/-- What views are assembled with when nothing else is said: the processors of the machine and the
settings to fall back on. -/
structure Host where
  processors : Nat
  fallback : Option Settings := none

namespace Host

/-- The view of a schema under one's own settings, or those of the host. A panic of the caller stands
as a failure with its text. -/
def view (host : Host) (own : Option Settings) (id : SchemaId) (store : Store) :
    Except Failure View :=
  let settings := Settings.effective own host.fallback
  let workers := settings.workers.resolve host.processors
  (Assembly.assemble workers settings.limit id (store.schema id)).getD
    (.error (.workerPanicked "overflow when adding duration to instant"))

/-- The view behind a handle. -/
def openHandle (host : Host) (h : Handle) : StateM Store (Except Failure View) := do
  match ← Store.schemaOf h.child with
  | .error e => return .error (.build e)
  | .ok id => return host.view none id (← get)

end Host

inductive Step where
  /-- To the property of a name. -/
  | property (key : String)
  /-- To an element of an applicator list. -/
  | element (applicator : Applicator) (index : Nat)
deriving DecidableEq, Repr

namespace View

def handle? (v : View) : Step → Option Handle
  | .property key => OrderedMap.get? key v.properties
  | .element a index => (v.handles a)[index]?

/-- All handles of a view with the steps that lead to them: applicator lists, then properties. -/
def branches (v : View) : List (Step × Handle) :=
  (Applicator.all.flatMap fun a => (v.handles a).mapIdx fun i h => (.element a i, h)) ++
    v.properties.map fun (key, h) => (.property key, h)

end View

/-- Why a walk ends early. -/
inductive WalkFailure where
  /-- There is nothing where the step leads. -/
  | missing
  /-- The schema there cannot be viewed. -/
  | failed (failure : Failure)

namespace Host

/-- Follows steps from a view. A failure comes with the number of the step, counted from `count`. -/
def walkFrom (host : Host) (count : Nat) :
    List Step → View → StateM Store (Except (Nat × WalkFailure) View)
  | [], v => return .ok v
  | step :: rest, v =>
    match v.handle? step with
    | none => return .error (count, .missing)
    | some h => do
      match ← host.openHandle h with
      | .error failure => return .error (count, .failed failure)
      | .ok v => host.walkFrom (count + 1) rest v

/-- Follows a path of steps from a view. -/
def walk (host : Host) (path : List Step) (v : View) :
    StateM Store (Except (Nat × WalkFailure) View) :=
  host.walkFrom 0 path v

end Host

/-- A view with the views below it. Branches are in the order of `View.branches`. -/
inductive Expansion where
  /-- A view whose handles were left closed. -/
  | leaf (view : View)
  /-- A view whose handles were opened. -/
  | node (view : View) (branches : List (Step × Handle × Except Failure Expansion))

namespace Host

/-- Opens every handle below a view down to `depth` levels. -/
def expand (host : Host) : (depth : Nat) → View → StateM Store Expansion
  | 0, v => return .leaf v
  | depth + 1, v => do
    let branches ← v.branches.mapM fun (step, h) => do
      match ← host.openHandle h with
      | .error failure => return (step, h, .error failure)
      | .ok below => return (step, h, .ok (← host.expand depth below))
    return .node v branches

end Host

end ApiSchema
