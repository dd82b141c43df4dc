import Rationale.Result
import Rationale.Traced

/-!
# Factories

A factory makes the values that a specification declares for one branch.
Some values are fixed, and others come from a callback: over the model,
over the model and the result of a wrapped specification, or, for a
quantifier, over a snapshot of all its items.

`resolve` asks a factory for its values.  `fixed` lists the values that
are known beforehand, and `isSingleValued` says whether there is always
exactly one.
-/

namespace Rationale

/-- One thing for each outcome of a specification. -/
structure Branches (φ : Type) where
  /-- For a satisfied specification. -/
  whenTrue : φ
  /-- For an unsatisfied specification. -/
  whenFalse : φ

/-- The branch of an outcome. -/
def Branches.taken {φ : Type} (branches : Branches φ) (satisfied : Bool) : φ :=
  if satisfied then branches.whenTrue else branches.whenFalse

/-! ## Factories over a model -/

/-- Makes the values of one branch of a specification over `M`. -/
inductive Factory (τ ν M : Type) where
  /-- One fixed value. -/
  | constant (value : τ)
  /-- A fixed list of values. -/
  | constants (values : List τ)
  /-- One value from the model. -/
  | model (f : M → Traced ν Raised τ)
  /-- Several values from the model. -/
  | modelMany (f : M → Traced ν Raised (List τ))
  /-- One value from the model and the underlying result. -/
  | result (f : M → Result τ → Traced ν Raised τ)
  /-- Several values from the model and the underlying result. -/
  | resultMany (f : M → Result τ → Traced ν Raised (List τ))

namespace Factory

variable {τ ν M : Type}

/-- Whether the factory reads the underlying result. -/
def needsUnderlying : Factory τ ν M → Bool
  | .result _ | .resultMany _ => true
  | .constant _ | .constants _ | .model _ | .modelMany _ => false

/-- Whether the factory always makes exactly one value. -/
def isSingleValued : Factory τ ν M → Bool
  | .constant _ | .model _ | .result _ => true
  | .constants _ | .modelMany _ | .resultMany _ => false

/-- The values that are known beforehand. -/
def fixed : Factory τ ν M → List τ
  | .constant value => [value]
  | .constants values => values
  | .model _ | .modelMany _ | .result _ | .resultMany _ => []

/-- Makes the values.  A factory that reads the underlying result fails
where there is none. -/
def resolve (factory : Factory τ ν M) (m : M)
    (underlying : Option (Result τ)) : Traced ν Raised (List τ) :=
  match factory, underlying with
  | .constant value, _ => pure [value]
  | .constants values, _ => pure values
  | .model f, _ => do return [← f m]
  | .modelMany f, _ => f m
  | .result f, some r => do return [← f m r]
  | .resultMany f, some r => f m r
  | .result _, none | .resultMany _, none =>
    .fail (.plain "factory requires an underlying result")

end Factory

/-! ## Factories over a snapshot -/

/-- What a quantifier knows when it makes its values: its items with
their results, and which of them explain the outcome. -/
structure Snapshot (τ I : Type) where
  /-- The items, in order. -/
  models : List I
  /-- The result of each item. -/
  results : List (Result τ)
  /-- The positions of the items that explain the outcome. -/
  causes : List Nat

namespace Snapshot

variable {τ I : Type}

/-- The items with a given outcome. -/
def modelsWith (s : Snapshot τ I) (satisfied : Bool) : List I :=
  ((s.models.zip s.results).filter fun (_, r) => r.satisfied = satisfied).map
    Prod.fst

/-- The satisfied items. -/
def trueModels (s : Snapshot τ I) : List I := s.modelsWith true

/-- The unsatisfied items. -/
def falseModels (s : Snapshot τ I) : List I := s.modelsWith false

/-- The number of items. -/
def count (s : Snapshot τ I) : Nat := s.models.length

/-- The number of satisfied items. -/
def trueCount (s : Snapshot τ I) : Nat :=
  s.results.countP Result.satisfied

/-- The number of unsatisfied items. -/
def falseCount (s : Snapshot τ I) : Nat := s.count - s.trueCount

/-- The items that explain the outcome. -/
def causalModels (s : Snapshot τ I) : List I :=
  s.causes.filterMap fun i => s.models[i]?

/-- The results of the items that explain the outcome. -/
def causalResults (s : Snapshot τ I) : List (Result τ) :=
  s.causes.filterMap fun i => s.results[i]?

/-- Whether every item is satisfied. -/
def allSatisfied (s : Snapshot τ I) : Bool := s.trueCount = s.count

/-- Whether no item is satisfied. -/
def noneSatisfied (s : Snapshot τ I) : Bool := s.trueCount = 0

end Snapshot

/-- Makes the values of one branch of a quantifier over items `I`. -/
inductive SnapshotFactory (τ ν I : Type) where
  /-- One fixed value. -/
  | constant (value : τ)
  /-- A fixed list of values. -/
  | constants (values : List τ)
  /-- One value from the snapshot. -/
  | snapshot (f : Snapshot τ I → Traced ν Raised τ)
  /-- Several values from the snapshot. -/
  | snapshotMany (f : Snapshot τ I → Traced ν Raised (List τ))

namespace SnapshotFactory

variable {τ ν I : Type}

/-- Whether the factory always makes exactly one value. -/
def isSingleValued : SnapshotFactory τ ν I → Bool
  | .constant _ | .snapshot _ => true
  | .constants _ | .snapshotMany _ => false

/-- The values that are known beforehand. -/
def fixed : SnapshotFactory τ ν I → List τ
  | .constant value => [value]
  | .constants values => values
  | .snapshot _ | .snapshotMany _ => []

/-- Makes the values. -/
def resolve (factory : SnapshotFactory τ ν I) (s : Snapshot τ I) :
    Traced ν Raised (List τ) :=
  match factory with
  | .constant value => pure [value]
  | .constants values => pure values
  | .snapshot f => do return [← f s]
  | .snapshotMany f => f s

end SnapshotFactory

end Rationale
