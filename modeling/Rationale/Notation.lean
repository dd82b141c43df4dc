/-!
# Notation

The textual conventions of everything that is printed: how deep a level
is indented, what marks a negation, and how several assertions of one
node are joined.
-/

namespace Rationale

/-- The conventions that statements, reasons and justifications follow. -/
structure Notation where
  /-- Spaces per nesting level. -/
  indent : Nat := 2
  /-- The mark in front of a negated operand or block. -/
  notSymbol : String := "!"
  /-- The mark in front of a statement that stands for a false outcome. -/
  falsePrefix : String := "¬"
  /-- What stands between several assertions of one node. -/
  assertionSeparator : String := ", "
deriving DecidableEq, Repr

namespace Notation

instance : Inhabited Notation where
  default := {}

/-- The blank space in front of a line at nesting level `depth`. -/
def pad (n : Notation) (depth : Nat) : String :=
  String.ofList (List.replicate (n.indent * depth) ' ')

/-- The assertion that a bare statement makes about its outcome. -/
def fallbackAssertion (n : Notation) (statement : String)
    (satisfied : Bool) : String :=
  if satisfied then statement else n.falsePrefix ++ statement

end Notation

end Rationale
