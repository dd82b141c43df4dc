/-!
# Metadata

A specification declares values for the branch that it takes.  A type of
values may have a text for some of its members, and may be able to make a
value out of a statement.  Texts can do both.
-/

namespace Rationale

/-- Types whose members can be attached to an outcome. -/
class Metadata (τ : Type) where
  /-- The assertion that a value stands for, if it has a text. -/
  asAssertion : τ → Option String := fun _ => none
  /-- The value that a statement makes, where no other was supplied. -/
  fromStatement : String → Option τ := fun _ => none

instance : Metadata String where
  asAssertion := some
  fromStatement := some

/-- The assertions of a list of values: their texts if every value has
one, and `fallback` otherwise. -/
def assertionsFor {τ : Type} [Metadata τ] (values : List τ)
    (fallback : String) : List String :=
  match values.mapM (m := Option) Metadata.asAssertion with
  | some (text :: texts) => text :: texts
  | _ => [fallback]

end Rationale
