import Rationale.Causality
import Rationale.Error
import Rationale.Metadata
import Rationale.Node
import Rationale.Statement

/-!
# Results

A result is the outcome of one evaluation together with what explains
it.  It is a node: its operands are the results it was made from, and its
causes are those among them that explain the outcome.  There are three
groups.

* Declarations.  A node may declare values and assertions of its own, or
  forward those of its causes.
* Making results.  `atomic` and `declared` take a declaration, and
  `fromOperator` and `compose` apply an operator to operands.
* Combining results.  `combine` applies a binary operator and makes one
  node of a chain of conjunctions or of disjunctions.

Whoever makes a result says at which place it is made.
-/

namespace Rationale

/-! ## Declarations -/

/-- What a node declares for the branch that was taken. -/
structure Declaration (τ : Type) where
  /-- The statement of the specification. -/
  statement : String
  /-- The values of the branch. -/
  values : List τ
  /-- The assertions of the branch. -/
  assertions : List String
  /-- The notation that the node is printed in. -/
  style : Notation
deriving DecidableEq

namespace Declaration

variable {τ : Type}

/-- Declares nothing.  The node forwards what its causes declare. -/
def forwarding (statement : String) (style : Notation) : Declaration τ :=
  ⟨statement, [], [], style⟩

/-- Declares values.  Their texts are the assertions, or the statement is
if one of them has none.  No values declare nothing. -/
def ofValues [Metadata τ] (statement : String) (values : List τ)
    (style : Notation) (satisfied : Bool) : Declaration τ :=
  if values.isEmpty then forwarding statement style
  else
    ⟨statement, values,
      assertionsFor values (style.fallbackAssertion statement satisfied), style⟩

/-- Declares the statement itself as the outcome, and the value that it
makes, if any. -/
def fallback [Metadata τ] (statement : String) (style : Notation)
    (satisfied : Bool) : Declaration τ :=
  let assertion := style.fallbackAssertion statement satisfied
  ⟨statement, (Metadata.fromStatement assertion).toList, [assertion], style⟩

end Declaration

/-! ## Results -/

/-- How a result came about. -/
inductive Kind where
  /-- A predicate was evaluated. -/
  | atomic
  /-- A node declares values of its own over other results. -/
  | declared
  /-- An operator was applied. -/
  | applied (op : Operator)
deriving DecidableEq, Repr

/-- The operator that was applied, if any. -/
def Kind.operator : Kind → Option Operator
  | .applied op => some op
  | .atomic | .declared => none

/-- What one result says. -/
structure Finding (τ : Type) extends Declaration τ where
  /-- Whether the specification is satisfied. -/
  satisfied : Bool
  /-- How the result came about. -/
  kind : Kind
deriving DecidableEq

/-- The outcome of an evaluation with its explanation. -/
abbrev Result (τ : Type) := Node (Finding τ)

namespace Result

variable {τ : Type}

/-- The outcome of the result. -/
def satisfied (r : Result τ) : Bool := r.label.satisfied

/-- The result as an operand of a statement. -/
def operand (r : Result τ) : Operand :=
  ⟨r.label.kind.operator, r.label.statement⟩

/-! ## Making results -/

/-- The result that says a finding over operands, explained by those at
the given positions. -/
def ofPositions (place : Place) (finding : Finding τ)
    (operands : List (Result τ)) (causes : List Nat) : Result τ :=
  .mk place finding operands (causes.filterMap fun i => operands[i]?)

/-- The result of a predicate. -/
def atomic (place : Place) (satisfied : Bool) (declaration : Declaration τ) :
    Result τ :=
  .mk place { declaration with satisfied, kind := .atomic } [] []

/-- The result that declares something over other results.  Every cause
has to be one of them. -/
def declared (place : Place) (satisfied : Bool) (declaration : Declaration τ)
    (underlying : List (Result τ)) (causes : List Nat) :
    Except Error (Result τ) :=
  match causes.find? fun i => underlying.length ≤ i with
  | some i => .error (.construction (.invalidCause i underlying.length))
  | none =>
    .ok (ofPositions place { declaration with satisfied, kind := .declared }
      underlying causes)

/-- The result of an operator.  Operands out of the operator's reach are
left out. -/
def applied (place : Place) (op : Operator) (operands : List (Result τ))
    (statement : String) (style : Notation) : Result τ :=
  let d := determine op (operands.map satisfied)
  let finding : Finding τ :=
    { Declaration.forwarding statement style with
      satisfied := d.satisfied, kind := .applied op }
  ofPositions place finding (operands.take d.evaluated) d.causes

/-- Applies an operator to as many operands as it takes, under a given
statement. -/
def fromOperator (place : Place) (op : Operator) (operands : List (Result τ))
    (statement : String) (style : Notation) : Except Error (Result τ) :=
  if op.accepts operands.length then
    .ok (applied place op operands statement style)
  else .error (.construction (.invalidArity op operands.length))

/-- The statement of an operator over results. -/
def statementOf (op : Operator) (operands : List (Result τ))
    (style : Notation) : String :=
  composeStatement op (operands.map operand) style

/-- Applies an operator to as many operands as it takes.  The notation is
that of the first operand. -/
def compose (place : Place) (op : Operator) (operands : List (Result τ)) :
    Except Error (Result τ) :=
  let style := (operands.head?.map fun r => r.label.style).getD {}
  fromOperator place op operands (statementOf op operands style) style

/-- The conjunction of results. -/
def allOf (place : Place) (operands : List (Result τ)) :
    Except Error (Result τ) :=
  compose place .and operands

/-- The disjunction of results. -/
def anyOf (place : Place) (operands : List (Result τ)) :
    Except Error (Result τ) :=
  compose place .or operands

/-! ## Combining results -/

/-- The operands that a result brings into a chain of `op`: its own, if
it is such a chain and none of them was left out, or itself. -/
def chainOperands (op : Operator) (r : Result τ) : List (Result τ) :=
  if r.label.kind = .applied op ∧ op.isAssociative ∧ !op.shortCircuits then
    r.operands
  else [r]

/-- Applies a binary operator.  The notation is that of the first result. -/
def combine (place : Place) (op : Operator) (a b : Result τ) : Result τ :=
  let operands := chainOperands op a ++ chainOperands op b
  applied place op operands (statementOf op operands a.label.style)
    a.label.style

/-- The negation of a result. -/
def negation (place : Place) (r : Result τ) : Result τ :=
  applied place .not [r] (statementOf .not [r] r.label.style) r.label.style

end Result

end Rationale
