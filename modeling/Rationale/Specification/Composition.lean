import Rationale.Specification

/-!
# Composition

Specifications are combined by operators, and restyled to another
notation.  A chain of an associative operator becomes one node: `combine`
takes over the operands of a side that is such a chain already.  The
notation of a composite is that of its first operand.

Restyling reaches every part of a specification, and the statements of
composites are written anew from the restyled operands.
-/

namespace Rationale.Specification

variable {τ ν M : Type}

/-- The statement of an operator over specifications. -/
def statementOf (op : Operator) (operands : List (Specification τ ν M))
    (style : Notation) : String :=
  composeStatement op (operands.map operand) style

/-- The operator applied to a list of operands. -/
def compose (place : Place) (op : Operator)
    (operands : List (Specification τ ν M)) (style : Notation) :
    Specification τ ν M :=
  .composite ⟨place, statementOf op operands style, style⟩ op operands.length
    operands.get

/-- The operands that a specification brings into a chain of `op`: its
own, if it is such a chain, or itself. -/
def chainOperands (op : Operator) (s : Specification τ ν M) :
    List (Specification τ ν M) :=
  if s.operator = some op ∧ op.isAssociative then s.operands else [s]

/-- Applies a binary operator. -/
def combine (place : Place) (op : Operator) (a b : Specification τ ν M) :
    Specification τ ν M :=
  compose place op (chainOperands op a ++ chainOperands op b) a.style

/-- The negation of a specification. -/
def negation (place : Place) (s : Specification τ ν M) :
    Specification τ ν M :=
  compose place .not [s] s.style

/-- Applies an operator to at least one specification, without making
one node of a chain. -/
def composeAll (place : Place) (op : Operator)
    (operands : List (Specification τ ν M)) :
    Except Error (Specification τ ν M) :=
  match operands with
  | [] => .error (.construction (.missingOperand op))
  | first :: rest => .ok (compose place op (first :: rest) first.style)

/-- The conjunction of specifications. -/
def allOf (place : Place) (operands : List (Specification τ ν M)) :
    Except Error (Specification τ ν M) :=
  composeAll place .and operands

/-- The disjunction of specifications. -/
def anyOf (place : Place) (operands : List (Specification τ ν M)) :
    Except Error (Specification τ ν M) :=
  composeAll place .or operands

/-- The specification in another notation, at every depth. -/
def restyle (style : Notation) : {M : Type} → Specification τ ν M → Place →
    Specification τ ν M
  | _, .atomic heading predicate branches, place =>
    .atomic ⟨place, heading.statement, style⟩ predicate branches
  | _, .wrapper heading inner branches, place =>
    .wrapper ⟨place, heading.statement, style⟩
      (inner.restyle style (place.child 0)) branches
  | _, .computed heading function branches, place =>
    .computed ⟨place, heading.statement, style⟩ function branches
  | _, .composite _ op _ operands, place =>
    compose place op
      (List.ofFn fun i => (operands i).restyle style (place.child i)) style
  | _, .quantified heading quantifier item branches, place =>
    .quantified ⟨place, heading.statement, style⟩ quantifier
      (item.restyle style (place.child 0)) branches

end Rationale.Specification
