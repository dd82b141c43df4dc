/-!
# Operators

The six ways to combine propositions, and what each one looks like on
paper.  There are three groups.

* How an operator behaves.  `Operator.settledBy` is the outcome after
  which nothing further is evaluated, and `Operator.isAssociative` says
  whether a chain is one node.
* How an operator is written.  `keyword` heads a justification block,
  `statementSymbol` joins statements and `reasonSymbol` joins reasons.
* How operators nest.  `collapsesWith` says when a block swallows a child
  block, and `bracketsChild` says when a child statement needs brackets.
-/

namespace Rationale

/-- The operators, in the order in which they are listed everywhere. -/
inductive Operator where
  /-- Conjunction of every operand. -/
  | and
  /-- Disjunction of every operand. -/
  | or
  /-- Exclusive disjunction of two operands. -/
  | xor
  /-- Negation of one operand. -/
  | not
  /-- Conjunction that stops at the first unsatisfied operand. -/
  | andAlso
  /-- Disjunction that stops at the first satisfied operand. -/
  | orElse
deriving DecidableEq, Repr

/-- Operators of one family print as one flat block. -/
inductive Family where
  | conjunction
  | disjunction
  /-- Never merged, not even with itself. -/
  | exclusive
  | negation
deriving DecidableEq, Repr

/-- The name of the family, in words. -/
def Family.name : Family → String
  | .conjunction => "Conjunction"
  | .disjunction => "Disjunction"
  | .exclusive => "Exclusive"
  | .negation => "Negation"

namespace Operator

/-- Every operator, once. -/
def all : List Operator := [.and, .or, .xor, .not, .andAlso, .orElse]

/-- The position in `all`, which is the order of the operators. -/
def rank : Operator → Nat
  | .and => 0
  | .or => 1
  | .xor => 2
  | .not => 3
  | .andAlso => 4
  | .orElse => 5

instance : LT Operator where
  lt a b := a.rank < b.rank

instance (a b : Operator) : Decidable (a < b) :=
  inferInstanceAs (Decidable (a.rank < b.rank))

/-- The name under which an operator is stored. -/
def name : Operator → String
  | .and => "and"
  | .or => "or"
  | .xor => "xor"
  | .not => "not"
  | .andAlso => "and-also"
  | .orElse => "or-else"

/-- The operator stored under a name. -/
def ofName? (s : String) : Option Operator :=
  all.find? fun op => op.name = s

/-- An operator is stored under its own name. -/
theorem ofName?_name (op : Operator) : ofName? op.name = some op := by
  cases op <;> decide

/-! ## How an operator behaves -/

/-- The family decides how blocks merge. -/
def family : Operator → Family
  | .and | .andAlso => .conjunction
  | .or | .orElse => .disjunction
  | .xor => .exclusive
  | .not => .negation

/-- A chain of an associative operator is one node with many operands. -/
def isAssociative : Operator → Bool
  | .and | .or | .andAlso | .orElse => true
  | .xor | .not => false

/-- The operand outcome that settles the operator on the spot, for the
operators that leave later operands unevaluated. -/
def settledBy : Operator → Option Bool
  | .andAlso => some false
  | .orElse => some true
  | .and | .or | .xor | .not => none

/-- Whether operands after a settling one are left unevaluated. -/
def shortCircuits (op : Operator) : Bool := op.settledBy.isSome

/-- The number of operands that the operator can be applied to. -/
def accepts (op : Operator) (count : Nat) : Bool :=
  match op with
  | .not => count == 1
  | .xor => count == 2
  | .and | .or | .andAlso | .orElse => 1 ≤ count

/-! ## How an operator is written -/

/-- The keyword that heads a justification block. -/
def keyword : Operator → String
  | .and => "AND"
  | .or => "OR"
  | .xor => "XOR"
  | .not => "NOT"
  | .andAlso => "AND ALSO"
  | .orElse => "OR ELSE"

instance : ToString Operator where
  toString := keyword

/-- The symbol between two operand statements.  A negation has none. -/
def statementSymbol : Operator → String
  | .and => "&"
  | .or => "|"
  | .xor => "^"
  | .not => ""
  | .andAlso => "&&"
  | .orElse => "||"

/-- The symbol between two reasons.  It depends on the family only. -/
def reasonSymbol (op : Operator) : String :=
  match op.family with
  | .conjunction => "&"
  | .disjunction => "|"
  | .exclusive => "^"
  | .negation => ""

/-! ## How operators nest -/

/-- Whether a block of `child` merges into a block of `parent`. -/
def collapsesWith (parent child : Operator) : Bool :=
  match parent.family with
  | .conjunction | .disjunction => parent.family = child.family
  | .exclusive | .negation => false

/-- Whether a statement built by `child` needs brackets under `parent`.
A leaf and a negation never do, and under a negation all else does. -/
def bracketsChild (parent : Operator) (child : Option Operator) : Bool :=
  match parent, child with
  | _, none => false
  | _, some .not => false
  | .not, some _ => true
  | parent, some child => parent ≠ child

end Operator

end Rationale
