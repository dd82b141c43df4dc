import Rationale.Factory
import Rationale.Quantifier

/-!
# Specifications

A specification is a proposition about models of a type `M`.  It is a
predicate, a wrapper around another specification or around a function
that makes results, an operator over specifications, or a quantifier over
items.  A quantifier makes a specification of lists out of one of items,
so the type of models is an index of the family.

Every specification has a heading: where it was made, which tells it from
other specifications, its statement and its notation.
-/

namespace Rationale

/-- What every specification shows. -/
structure Heading where
  /-- Where the specification was made. -/
  place : Place
  /-- The proposition, on one line. -/
  statement : String
  /-- The notation of the specification and of its results. -/
  style : Notation
deriving DecidableEq

/-- A proposition about models.  Its callbacks leave notes in `ν`, and
its results carry values in `τ`. -/
inductive Specification (τ ν : Type) : Type → Type 1 where
  /-- A predicate. -/
  | atomic {M : Type} (heading : Heading)
      (predicate : M → Traced ν Raised Bool)
      (branches : Option (Branches (Factory τ ν M))) : Specification τ ν M
  /-- Another specification under a new heading. -/
  | wrapper {M : Type} (heading : Heading) (inner : Specification τ ν M)
      (branches : Option (Branches (Factory τ ν M))) : Specification τ ν M
  /-- A function that makes results.  It is told the place at which new
  results may be made. -/
  | computed {M : Type} (heading : Heading)
      (function : Place → M → Traced ν Raised (Result τ))
      (branches : Option (Branches (Factory τ ν M))) : Specification τ ν M
  /-- An operator over operands. -/
  | composite {M : Type} (heading : Heading) (op : Operator) (count : Nat)
      (operands : Fin count → Specification τ ν M) : Specification τ ν M
  /-- A quantifier over items. -/
  | quantified {I : Type} (heading : Heading) (quantifier : Quantifier)
      (item : Specification τ ν I)
      (branches : Option (Branches (SnapshotFactory τ ν I))) :
      Specification τ ν (List I)

namespace Specification

variable {τ ν M : Type}

/-- What the specification shows. -/
def heading : {M : Type} → Specification τ ν M → Heading
  | _, .atomic heading _ _ => heading
  | _, .wrapper heading _ _ => heading
  | _, .computed heading _ _ => heading
  | _, .composite heading _ _ _ => heading
  | _, .quantified heading _ _ _ => heading

/-- The proposition, on one line. -/
def statement (s : Specification τ ν M) : String := s.heading.statement

/-- The notation of the specification and of its results. -/
def style (s : Specification τ ν M) : Notation := s.heading.style

/-- Whether two handles are the same specification. -/
def isSame (a b : Specification τ ν M) : Bool :=
  a.heading.place = b.heading.place

/-- The operator of a composite. -/
def operator : {M : Type} → Specification τ ν M → Option Operator
  | _, .composite _ op _ _ => some op
  | _, .atomic .. => none
  | _, .wrapper .. => none
  | _, .computed .. => none
  | _, .quantified .. => none

/-- The operands of a composite.  No other specification has any. -/
def operands : {M : Type} → Specification τ ν M → List (Specification τ ν M)
  | _, .composite _ _ _ operands => List.ofFn operands
  | _, .atomic .. => []
  | _, .wrapper .. => []
  | _, .computed .. => []
  | _, .quantified .. => []

/-- The specification as an operand of a statement. -/
def operand (s : Specification τ ν M) : Operand := ⟨s.operator, s.statement⟩

/-- The statements that stand below the statement in an expression. -/
def partStatements : {M : Type} → Specification τ ν M → List String
  | _, .composite _ _ _ operands => List.ofFn fun i => (operands i).statement
  | _, .wrapper _ inner _ => [inner.statement]
  | _, .quantified _ _ item _ => [item.statement]
  | _, .atomic .. => []
  | _, .computed .. => []

/-- The statement, above the statements of the immediate parts. -/
def expression (s : Specification τ ν M) : String :=
  composeExpression s.statement s.partStatements s.style

end Specification

end Rationale
