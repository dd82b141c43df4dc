import Rationale.Specification.Draft
import Rationale.Specification.Evaluation

/-!
# Policies

A policy decides: executing it evaluates its specification and takes the
one value that was declared.
-/

namespace Rationale

/-- What a policy decided. -/
structure Decision (τ : Type) where
  /-- The value decided on. -/
  value : τ
  /-- The result behind it. -/
  result : Result τ

namespace Policy

variable {τ ν M : Type} [Metadata τ]

/-- Evaluates the specification of a policy and takes the value it
declares.  Any other number of values is a failure of the branch. -/
def execute (p : Policy τ ν M) (place : Place) (m : M) :
    Traced ν Error (Decision τ) := do
  let result ← p.specification.evaluate place m
  match result.label.values with
  | [value] => return ⟨value, result⟩
  | values =>
    let cause :=
      "decided " ++ toString values.length ++ " values instead of one"
    .fail (.ofRaised p.specification.statement
      (Role.ofOutcome result.satisfied) (.plain cause))

end Policy

end Rationale
