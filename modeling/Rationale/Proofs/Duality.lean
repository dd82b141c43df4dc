import Rationale.Proofs.Lazy

/-!
# Duality of causes

The outcome and the causes are selected by separate rules for each operator
and for each quantifier.  This module pins the rules against each other.
There are three groups.

* Negated outcomes.  `positionsOf_map_not` and `allPositions_map_not` say
  where the outcomes of a list stand that was negated.
* Operators.  `Operator.dual` exchanges conjunctions and disjunctions.  By
  `determine_dual`, it makes the opposite of the negated outcomes, and by
  `determine_eager` an operator that stops early makes what its eager
  counterpart makes, as far as it looks.
* Quantifiers.  The bounds from below and from above are opposites, and the
  quantifiers without a number are bounds of zero and one.

`OperatorLaws` and `QuantifierLaws` collect the laws, and `laws_of_outcomes`
says that they hold over every list of outcomes.
-/

namespace Rationale

/-! ## Negated outcomes -/

theorem allPositions_map_not (outcomes : List Bool) :
    allPositions (outcomes.map Bool.not) = allPositions outcomes := by
  rw [allPositions, List.length_map, allPositions]

/-- Where one outcome stood, the other one stands afterwards. -/
theorem positionsOf_map_not (wanted : Bool) (outcomes : List Bool) :
    positionsOf (!wanted) (outcomes.map Bool.not) =
      positionsOf wanted outcomes := by
  rw [positionsOf, positionsOf, List.length_map]
  refine List.filter_congr fun i hi => ?_
  rw [List.getElem?_map]
  cases outcomes[i]? with
  | none => rfl
  | some outcome => cases outcome <;> cases wanted <;> rfl

/-- The same causes of the opposite outcome. -/
def Determination.opposite (d : Determination) : Determination :=
  { d with satisfied := !d.satisfied }

/-- The same causes of the opposite judgement. -/
def Selection.opposite (s : Selection) : Selection :=
  { s with satisfied := !s.satisfied }

/-! ## Operators -/

namespace Operator

/-- The operator with conjunctions and disjunctions exchanged. -/
def dual : Operator → Operator
  | .and => .or
  | .or => .and
  | .xor => .xor
  | .not => .not
  | .andAlso => .orElse
  | .orElse => .andAlso

theorem settles_dual (op : Operator) (outcome : Bool) :
    op.dual.settles (!outcome) = op.settles outcome := by
  cases op <;> cases outcome <;> rfl

/-- The dual operator stops where the operator stops. -/
theorem upTo_settles_dual (op : Operator) (outcomes : List Bool) :
    upTo op.dual.settles (outcomes.map Bool.not) =
      (upTo op.settles outcomes).map Bool.not := by
  rw [upTo_map]
  congr 2
  funext outcome
  exact op.settles_dual outcome

theorem holds_dual {op : Operator} (hop : op.isAssociative)
    (outcomes : List Bool) :
    op.dual.holds (outcomes.map Bool.not) = !op.holds outcomes := by
  cases op with
  | xor | not => cases hop
  | and | andAlso =>
    rw [dual, holds, holds, List.any_map, List.not_all_eq_any_not]
    rfl
  | or | orElse =>
    rw [dual, holds, holds, List.all_map, List.not_any_eq_all_not]
    rfl

theorem causes_dual {op : Operator} (hop : op.isAssociative)
    (outcomes : List Bool) :
    op.dual.causes (outcomes.map Bool.not) = op.causes outcomes := by
  have hholds := holds_dual hop outcomes
  have hall := allPositions_map_not outcomes
  cases op with
  | xor | not => cases hop
  | and | andAlso =>
    simp only [dual, holds] at hholds
    simp only [dual, causes, holds, hholds, hall,
      ← positionsOf_map_not false outcomes]
    cases outcomes.all id <;> rfl
  | or | orElse =>
    simp only [dual, holds] at hholds
    simp only [dual, causes, holds, hholds, hall,
      ← positionsOf_map_not true outcomes]
    cases outcomes.any id <;> rfl

end Operator

/-- The dual operator makes the opposite of the negated outcomes, and has the
same causes. -/
theorem determine_dual {op : Operator} (hop : op.isAssociative)
    (outcomes : List Bool) :
    determine op.dual (outcomes.map Bool.not) =
      (determine op outcomes).opposite := by
  rw [determine_eq, determine_eq, op.upTo_settles_dual, List.length_map,
    Operator.holds_dual hop, Operator.causes_dual hop]
  rfl

/-- The second operand settles both. -/
example : determine .andAlso [true, false, true] = ⟨false, 2, [1]⟩ ∧
    determine .orElse [false, true, false] = ⟨true, 2, [1]⟩ := by decide

/-- An operator that stops early has the outcome of its eager counterpart, and
those of its causes that it looks at. -/
theorem determine_eager (op : Operator) (outcomes : List Bool) :
    (determine op outcomes).satisfied =
        (determine op.eager outcomes).satisfied ∧
      (determine op outcomes).causes =
        (determine op.eager outcomes).causes.filter
          (· < (determine op outcomes).evaluated) := by
  rw [determine_eq, determine_eq,
    Operator.upTo_settles_eq_self op.settledBy_eager]
  constructor
  · rw [op.holds_eager]
  · rw [op.causes_eager, op.causes_upTo]

/-! ## Quantifiers -/

namespace Quantifier

variable (outcomes : List Bool)

/-- What is not at least the next number is at most the number. -/
theorem select_atLeast_succ (n : Nat) :
    (atLeast (n + 1)).select outcomes =
      ((atMost n).select outcomes).opposite := by
  simp only [select, Selection.opposite]
  by_cases h : (positionsOf true outcomes).length ≤ n
  · have hless : ¬n + 1 ≤ (positionsOf true outcomes).length := by omega
    simp [h, hless]
  · have hmore : n + 1 ≤ (positionsOf true outcomes).length := by omega
    simp [h, hmore]

/-- Where all are satisfied, none of the opposites is. -/
theorem select_none_map_not :
    none.select (outcomes.map Bool.not) = all.select outcomes := by
  have htrue : positionsOf true (outcomes.map Bool.not) =
      positionsOf false outcomes := positionsOf_map_not false outcomes
  simp only [select, allPositions_map_not, htrue]

theorem select_any_eq_atLeast :
    any.select outcomes = (atLeast 1).select outcomes := by
  simp only [select]
  by_cases h : positionsOf true outcomes = []
  · simp [h]
  · have hpos : 1 ≤ (positionsOf true outcomes).length :=
      List.length_pos_iff.2 h
    simp [h, hpos]

theorem select_none_eq_atMost :
    none.select outcomes = (atMost 0).select outcomes := by
  simp only [select]
  by_cases h : positionsOf true outcomes = []
  · simp [h]
  · simp [h]

theorem select_none_eq_exactly :
    none.select outcomes = (exactly 0).select outcomes := by
  simp only [select]
  by_cases h : positionsOf true outcomes = []
  · simp [h]
  · have hpos : 0 < (positionsOf true outcomes).length :=
      List.length_pos_iff.2 h
    simp [h, hpos]

/-- So many are satisfied where so many at least are, and so many at most. -/
theorem satisfied_exactly (n : Nat) :
    ((exactly n).select outcomes).satisfied =
      (((atLeast n).select outcomes).satisfied &&
        ((atMost n).select outcomes).satisfied) := by
  cases n with
  | zero =>
    rw [← select_none_eq_exactly, ← select_none_eq_atMost]
    rfl
  | succ n =>
    simp only [select]
    by_cases h : (positionsOf true outcomes).length = n + 1
    · simp [h]
    · have hother : ¬(n + 1 ≤ (positionsOf true outcomes).length ∧
          (positionsOf true outcomes).length ≤ n + 1) := by omega
      simpa [h] using hother

end Quantifier

/-! ## Laws -/

/-- What the outcomes and the causes of different operators have to do with
each other. -/
structure OperatorLaws (outcomes : List Bool) : Prop where
  /-- Dual operators over opposite outcomes have the same causes and look
  equally far, and have opposite outcomes. -/
  dual : ∀ op : Operator, op.isAssociative →
    determine op.dual (outcomes.map Bool.not) =
      (determine op outcomes).opposite
  /-- Operators that stop early have the same outcome. -/
  lazy_satisfied : ∀ op : Operator,
    (determine op outcomes).satisfied =
      (determine op.eager outcomes).satisfied
  /-- Operators that stop early have the causes that they look at. -/
  lazy_causes : ∀ op : Operator,
    (determine op outcomes).causes =
      (determine op.eager outcomes).causes.filter
        (· < (determine op outcomes).evaluated)
  /-- Causes ascend. -/
  ascending : ∀ op : Operator,
    (determine op outcomes).causes.Pairwise (· < ·)
  /-- Causes are looked at, and what is looked at is an operand. -/
  inRange : ∀ op : Operator,
    (∀ i ∈ (determine op outcomes).causes,
      i < (determine op outcomes).evaluated) ∧
    (determine op outcomes).evaluated ≤ outcomes.length

/-- What the judgements and the causes of different quantifiers have to do
with each other. -/
structure QuantifierLaws (outcomes : List Bool) : Prop where
  /-- A bound from below is the opposite of the bound from above that is one
  less, and has the same causes. -/
  opposite : ∀ n : Nat, (Quantifier.atLeast (n + 1)).select outcomes =
    ((Quantifier.atMost n).select outcomes).opposite
  /-- All are satisfied where none of the opposites is. -/
  all : Quantifier.all.select outcomes =
    Quantifier.none.select (outcomes.map Bool.not)
  /-- Any is one at least. -/
  any : Quantifier.any.select outcomes =
    (Quantifier.atLeast 1).select outcomes
  /-- None is zero at most. -/
  none_atMost : Quantifier.none.select outcomes =
    (Quantifier.atMost 0).select outcomes
  /-- None is zero exactly. -/
  none_exactly : Quantifier.none.select outcomes =
    (Quantifier.exactly 0).select outcomes
  /-- A number is met where it is the bound from below and from above. -/
  exactly : ∀ n : Nat, ((Quantifier.exactly n).select outcomes).satisfied ↔
    ((Quantifier.atLeast n).select outcomes).satisfied ∧
      ((Quantifier.atMost n).select outcomes).satisfied
  /-- Causes ascend. -/
  ascending : ∀ q : Quantifier, (q.select outcomes).causes.Pairwise (· < ·)
  /-- Causes are items. -/
  inRange : ∀ q : Quantifier, ∀ i ∈ (q.select outcomes).causes,
    i < outcomes.length

/-- All rules of causality agree with each other, over every list of
outcomes and for every bound. -/
theorem laws_of_outcomes (outcomes : List Bool) :
    OperatorLaws outcomes ∧ QuantifierLaws outcomes := by
  refine ⟨?_, ?_⟩
  · constructor
    case dual => exact fun op hop => determine_dual hop outcomes
    case lazy_satisfied => exact fun op => (determine_eager op outcomes).1
    case lazy_causes => exact fun op => (determine_eager op outcomes).2
    case ascending =>
      intro op
      rw [determine_eq]
      exact op.pairwise_causes _
    case inRange =>
      intro op
      exact ⟨fun i hi => lt_of_mem_determine hi,
        determine_evaluated_le op outcomes⟩
  · constructor
    case opposite => exact Quantifier.select_atLeast_succ outcomes
    case all => exact (Quantifier.select_none_map_not outcomes).symm
    case any => exact Quantifier.select_any_eq_atLeast outcomes
    case none_atMost => exact Quantifier.select_none_eq_atMost outcomes
    case none_exactly => exact Quantifier.select_none_eq_exactly outcomes
    case exactly =>
      intro n
      rw [Quantifier.satisfied_exactly, Bool.and_eq_true]
    case ascending => exact fun q => q.pairwise_causes outcomes
    case inRange => exact fun q i hi => Quantifier.lt_of_mem_causes hi

end Rationale
