import Rationale.Causality

/-!
# Quantifiers

A quantifier judges a list of item outcomes by the number of satisfied
ones, and selects the items that explain its judgement.  The explaining
items are chosen as for operators: those that could have changed the
outcome.
-/

namespace Rationale

/-- How many items have to be satisfied. -/
inductive Quantifier where
  | all
  | any
  | none
  | atLeast (n : Nat)
  | atMost (n : Nat)
  | exactly (n : Nat)
deriving DecidableEq, Repr

/-- What a quantifier makes of the outcomes of the items. -/
structure Selection where
  /-- Whether the bound holds. -/
  satisfied : Bool
  /-- The positions of the items that explain the outcome, ascending. -/
  causes : List Nat
deriving DecidableEq, Repr

namespace Quantifier

/-- The quantifier in words. -/
def text : Quantifier → String
  | .all => "all satisfied"
  | .any => "any satisfied"
  | .none => "none satisfied"
  | .atLeast n => "at least " ++ toString n ++ " satisfied"
  | .atMost n => "at most " ++ toString n ++ " satisfied"
  | .exactly n => "exactly " ++ toString n ++ " satisfied"

instance : ToString Quantifier where
  toString := text

/-- Judges the outcomes of the items and selects those that explain the
judgement. -/
def select (q : Quantifier) (outcomes : List Bool) : Selection :=
  let every := allPositions outcomes
  let trues := positionsOf true outcomes
  let falses := positionsOf false outcomes
  match q with
  | .all => ⟨falses.isEmpty, if falses.isEmpty then every else falses⟩
  | .any => ⟨!trues.isEmpty, if trues.isEmpty then every else trues⟩
  | .none => ⟨trues.isEmpty, if trues.isEmpty then every else trues⟩
  | .atLeast 0 => ⟨true, every⟩
  | .atLeast n =>
    ⟨n ≤ trues.length, if n ≤ trues.length then trues else every⟩
  | .atMost n =>
    ⟨trues.length ≤ n, if trues.length ≤ n then every else trues⟩
  | .exactly n =>
    if trues.length = n then ⟨true, every⟩
    else ⟨false, if n < trues.length then trues else falses⟩

end Quantifier

end Rationale
