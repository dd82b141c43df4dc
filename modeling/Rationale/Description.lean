import Rationale.Node.Tier
import Rationale.Text.Lines
import Rationale.View.Reason
import Rationale.View.Justification

/-!
# Descriptions

What is said about a result in words: its reason and its justification in
the notation it carries, and the texts and values of its tiers.  A result
has two tiers, the assertions and the values that its nodes declare.
-/

namespace Rationale

/-- The description of one result. -/
structure Description where
  /-- The causal summary, on one line. -/
  reason : String
  /-- The statement of the specification. -/
  statement : String
  /-- The number of causes of the result. -/
  causalOperandCount : Nat
  /-- The causal explanation, on several lines. -/
  justification : String
deriving DecidableEq, Repr

/-- The lines of the justification. -/
def Description.justificationLines (d : Description) : List String :=
  Text.lines d.justification

namespace Result

variable {τ : Type} [DecidableEq τ]

/-- The description of a result. -/
def description (r : Result τ) : Description where
  reason := r.reason r.label.style
  statement := r.label.statement
  causalOperandCount := r.causes.length
  justification := r.justification r.label.style

/-- The assertions that explain the result, without repeats. -/
def assertions (r : Result τ) : List String :=
  distinct (r.values fun finding => finding.assertions)

/-- The values that explain the result. -/
def metadata (r : Result τ) : List τ :=
  r.values fun finding => finding.values

end Result

end Rationale
