import Rationale.Specification.Draft
import Rationale.Text.Quoted

/-!
# Inspection

Short texts that show a value in a log.  A text names the type and a few
fields, and two dots stand for what is left out.
-/

namespace Rationale

/-- Some fields of a value of a type, with more left out. -/
def inspectFields (type : String) (fields : List (String × String)) : String :=
  let shown := fields.map fun (name, value) => name ++ ": " ++ value ++ ", "
  type ++ " \x7b " ++ String.join shown ++ ".. \x7d"

/-- The items of a list, in brackets. -/
def inspectList (items : List String) : String :=
  "[" ++ ", ".intercalate items ++ "]"

/-- The name of an operator as one word. -/
def Operator.word : Operator → String
  | .and => "And"
  | .or => "Or"
  | .xor => "Xor"
  | .not => "Not"
  | .andAlso => "AndAlso"
  | .orElse => "OrElse"

/-- The kind of a result, for a log. -/
def Kind.inspect : Kind → String
  | .atomic => "Atomic"
  | .declared => "Declared"
  | .applied op => "Operator(" ++ op.word ++ ")"

/-- A result, for a log. -/
def Result.inspect {τ : Type} (r : Result τ) : String :=
  inspectFields "BooleanResult"
    [("satisfied", toString r.satisfied),
      ("kind", r.label.kind.inspect),
      ("statement", Text.quoted r.label.statement),
      ("assertions", inspectList (r.label.assertions.map Text.quoted)),
      ("causes", toString r.causes.length)]

/-- A specification, for a log. -/
def Specification.inspect {τ ν M : Type} (s : Specification τ ν M) : String :=
  let operator :=
    match s.operator with
    | some op => "Some(" ++ op.word ++ ")"
    | none => "None"
  inspectFields "Specification"
    [("statement", Text.quoted s.statement), ("operator", operator)]

/-- A policy, for a log. -/
def Policy.inspect {τ ν M : Type} (p : Policy τ ν M) : String :=
  inspectFields "Policy" [("statement", Text.quoted p.specification.statement)]

/-- A factory, for a log.  Fixed values are shown, and callbacks are
not. -/
def Factory.inspect {τ ν M : Type} (inspectValue : τ → String) :
    Factory τ ν M → String
  | .constant value => "Constant(" ++ inspectValue value ++ ")"
  | .constants values =>
    "Constants(" ++ inspectList (values.map inspectValue) ++ ")"
  | .model _ => "Model(..)"
  | .modelMany _ => "ModelMany(..)"
  | .result _ => "Result(..)"
  | .resultMany _ => "ResultMany(..)"

end Rationale
