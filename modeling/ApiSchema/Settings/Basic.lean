import ApiSchema.Duration

/-!
How many workers an assembly may use and how long it may take.
-/

namespace ApiSchema

/-- A number of workers: as many as the machine has processors, or a positive number. -/
inductive WorkerCount where
  | processors
  | exactly (count : Nat) (positive : 0 < count)
deriving DecidableEq, Repr

/-- The number of threads that a worker count allows on a machine. There is always one. -/
def WorkerCount.resolve (processors : Nat) : WorkerCount → Nat
  | .processors => max 1 processors
  | .exactly count _ => count

/-- The settings of an assembly. -/
structure Settings where
  workers : WorkerCount := .processors
  limit : Option Duration := none
deriving DecidableEq, Repr

/-- The settings in effect: one's own, else the fallback, else the default. -/
def Settings.effective (own fallback : Option Settings) : Settings :=
  (own <|> fallback).getD {}

end ApiSchema
