import Rationale.Specification

/-!
# Evaluation

`Specification.evaluate` runs a specification on a model.  Callbacks run
from left to right: first what decides the outcome, then the factory of
the branch that was taken.  A short-circuit operator stops at the operand
that settles it, and everything stops at the first failure.  A failing
callback is reported once, with the statement and the role it has in the
specification that owns it.

Results are made at the place of the evaluation.  Operands and items are
evaluated at places of their own below it.  A wrapped specification is
evaluated at the same place, since a wrapper's result holds the one it
wraps and so differs from it.
-/

namespace Rationale

/-- Reports what a callback raised as an error of its owner. -/
def Traced.raisedBy {ν α : Type} (x : Traced ν Raised α) (statement : String)
    (role : Role) : Traced ν Error α :=
  x.mapError (Error.ofRaised statement role)

namespace Specification

variable {τ ν : Type} [Metadata τ]

/-- The declaration of a predicate or a wrapper, for the branch taken. -/
def declare {M : Type} (heading : Heading)
    (branches : Option (Branches (Factory τ ν M))) (m : M) (satisfied : Bool)
    (underlying : Option (Result τ)) : Traced ν Error (Declaration τ) :=
  match branches, underlying with
  | some branches, underlying => do
    let values ← ((branches.taken satisfied).resolve m underlying).raisedBy
      heading.statement (Role.ofOutcome satisfied)
    if values.isEmpty && underlying.isNone then
      return .fallback heading.statement heading.style satisfied
    else return .ofValues heading.statement values heading.style satisfied
  | none, none =>
    pure (.fallback heading.statement heading.style satisfied)
  | none, some _ => pure (.forwarding heading.statement heading.style)

/-- The result of a wrapper around a result. -/
def wrap {M : Type} (heading : Heading)
    (branches : Option (Branches (Factory τ ν M))) (place : Place) (m : M)
    (inner : Result τ) : Traced ν Error (Result τ) := do
  let declaration ← declare heading branches m inner.satisfied (some inner)
  .ofExcept (Result.declared place inner.satisfied declaration [inner] [0])

/-- The declaration of a quantifier, for the branch taken. -/
def declareSnapshot {I : Type} (heading : Heading)
    (branches : Option (Branches (SnapshotFactory τ ν I)))
    (satisfied : Bool) (snapshot : Snapshot τ I) :
    Traced ν Error (Declaration τ) :=
  match branches with
  | some branches => do
    let values ← ((branches.taken satisfied).resolve snapshot).raisedBy
      heading.statement (Role.ofOutcome satisfied)
    return .ofValues heading.statement values heading.style satisfied
  | none => pure (.fallback heading.statement heading.style satisfied)

/-- Runs the specification on a model. -/
def evaluate : {M : Type} → Specification τ ν M → Place → M →
    Traced ν Error (Result τ)
  | _, .atomic heading predicate branches, place, m => do
    let satisfied ← (predicate m).raisedBy heading.statement .predicate
    let declaration ← declare heading branches m satisfied none
    return Result.atomic place satisfied declaration
  | _, .wrapper heading inner branches, place, m => do
    let result ← inner.evaluate place m
    wrap heading branches place m result
  | _, .computed heading function branches, place, m => do
    let result ← (function place m).raisedBy heading.statement .predicate
    wrap heading branches place m result
  | _, .composite heading op count operands, place, m => do
    let results ← Traced.runUntil
      (fun r => op.settledBy = some (Result.satisfied r))
      (fun i => (operands i).evaluate (place.child i) m)
      (List.finRange count)
    .ofExcept
      (Result.fromOperator place op results heading.statement heading.style)
  | _, .quantified heading quantifier item branches, place, models => do
    let results ← Traced.runAll
      (fun (m, i) => item.evaluate (place.child i) m) models.zipIdx
    let selection := quantifier.select (results.map Result.satisfied)
    let declaration ← declareSnapshot heading branches selection.satisfied
      ⟨models, results, selection.causes⟩
    .ofExcept
      (Result.declared place selection.satisfied declaration results
        selection.causes)

end Specification

end Rationale
