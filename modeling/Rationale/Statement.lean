import Rationale.Operator
import Rationale.Notation

/-!
# Statements and expressions

A composite has a statement, written from the statements of its operands.
`composeStatement` brackets an operand exactly when
`Operator.bracketsChild` asks for it.  `composeExpression` lists the
operands below the statement, one level deeper.
-/

namespace Rationale

/-- An operand as a statement shows it. -/
structure Operand where
  /-- The operator that the operand was built by, if any. -/
  operator : Option Operator
  /-- The operand's own statement. -/
  statement : String
deriving DecidableEq, Repr

/-- The operand's statement, in brackets where `parent` needs them. -/
def Operand.bracketed (parent : Operator) (operand : Operand) : String :=
  if parent.bracketsChild operand.operator then
    "(" ++ operand.statement ++ ")"
  else operand.statement

/-- The statement of `op` applied to the operands. -/
def composeStatement (op : Operator) (operands : List Operand)
    (style : Notation) : String :=
  let parts := operands.map (Operand.bracketed op)
  match op with
  | .not => style.notSymbol ++ parts.headD ""
  | _ => (" " ++ op.statementSymbol ++ " ").intercalate parts

/-- The statement, followed by the operands' statements on lines of their
own, one level deeper. -/
def composeExpression (statement : String) (operands : List String)
    (style : Notation) : String :=
  "\n".intercalate
    (statement :: operands.map fun operand => style.pad 1 ++ operand)

end Rationale
