import Rationale.Operator

/-!
# Causality

`determine` applies an operator to the outcomes of its operands.  It says
three things at once: whether the composite is satisfied, how many
operands are looked at, and which of them explain the outcome.

An outcome is explained by the operands that could have changed it.  A
false conjunction is explained by its false operands and a true one by
all of them; a disjunction is the other way round; an exclusive
disjunction and a negation are explained by every operand.
-/

namespace Rationale

/-- What an operator makes of the outcomes of its operands. -/
structure Determination where
  /-- Whether the composite is satisfied. -/
  satisfied : Bool
  /-- The number of leading operands that are looked at. -/
  evaluated : Nat
  /-- The positions of the operands that explain the outcome, ascending. -/
  causes : List Nat
deriving DecidableEq, Repr

/-- The positions at which a list of outcomes has the outcome `wanted`,
ascending. -/
def positionsOf (wanted : Bool) (outcomes : List Bool) : List Nat :=
  (List.range outcomes.length).filter fun i => outcomes[i]? = some wanted

/-- All positions of a list of outcomes, ascending. -/
def allPositions (outcomes : List Bool) : List Nat :=
  List.range outcomes.length

namespace Operator

/-- The number of leading operands that the operator looks at: up to and
including the first one that settles it, or all of them. -/
def reach (op : Operator) (outcomes : List Bool) : Nat :=
  match outcomes.findIdx? fun outcome => op.settledBy = some outcome with
  | some i => i + 1
  | none => outcomes.length

/-- The truth table of the operator. -/
def holds (op : Operator) (outcomes : List Bool) : Bool :=
  match op with
  | .and | .andAlso => outcomes.all id
  | .or | .orElse => outcomes.any id
  | .xor => outcomes.count true % 2 = 1
  | .not => !outcomes.headD false

/-- The positions that explain the outcome of the operator. -/
def causes (op : Operator) (outcomes : List Bool) : List Nat :=
  match op with
  | .and | .andAlso =>
    if op.holds outcomes then allPositions outcomes
    else positionsOf false outcomes
  | .or | .orElse =>
    if op.holds outcomes then positionsOf true outcomes
    else allPositions outcomes
  | .xor | .not => allPositions outcomes

end Operator

/-- Applies the operator to the outcomes of its operands.  Only the
operands within reach count. -/
def determine (op : Operator) (outcomes : List Bool) : Determination :=
  let considered := outcomes.take (op.reach outcomes)
  { satisfied := op.holds considered
    evaluated := op.reach outcomes
    causes := op.causes considered }

end Rationale
