import Rationale.Description
import Rationale.Proofs.Made
import Rationale.Specification.Composition

/-!
# Operator nodes determine themselves

The node of an operator keeps the operands that were looked at.  They are
enough: the operator applied to their outcomes says again what the node
says, looks at all of them, and is explained by the node's causes.  There
are three groups.

* Positions.  `Result.CausedAt` says that the causes of a node are its
  operands at some positions, and that none of these is missing.
* Operator nodes.  `Result.Determined` is what an operator node says about
  itself, and `determined_applied` that the operator makes it so, whichever
  operands it leaves out.
* Every run.  `Result.Reachable` lists the ways to come by a result, and
  evaluating a specification is one of them.
-/

namespace Rationale

/-! ## Positions -/

theorem pairwise_positionsOf (wanted : Bool) (outcomes : List Bool) :
    (positionsOf wanted outcomes).Pairwise (· < ·) :=
  List.pairwise_lt_range.filter _

theorem pairwise_allPositions (outcomes : List Bool) :
    (allPositions outcomes).Pairwise (· < ·) := List.pairwise_lt_range

/-- The positions that explain an operator ascend. -/
theorem Operator.pairwise_causes (op : Operator) (outcomes : List Bool) :
    (op.causes outcomes).Pairwise (· < ·) := by
  cases op with
  | and | andAlso =>
    simp only [causes]
    split
    · exact pairwise_allPositions outcomes
    · exact pairwise_positionsOf false outcomes
  | or | orElse =>
    simp only [causes]
    split
    · exact pairwise_positionsOf true outcomes
    · exact pairwise_allPositions outcomes
  | xor | not => exact pairwise_allPositions outcomes

/-- The positions that explain a quantifier ascend. -/
theorem Quantifier.pairwise_causes (q : Quantifier) (outcomes : List Bool) :
    (q.select outcomes).causes.Pairwise (· < ·) := by
  have hall := pairwise_allPositions outcomes
  have htrue := pairwise_positionsOf true outcomes
  have hfalse := pairwise_positionsOf false outcomes
  have hpick {positions positions' : List Nat} {P : Prop} [Decidable P]
      (h : positions.Pairwise (· < ·)) (h' : positions'.Pairwise (· < ·)) :
      (if P then positions else positions').Pairwise (· < ·) := by
    split
    · exact h
    · exact h'
  cases q with
  | all => exact hpick hall hfalse
  | any => exact hpick hall htrue
  | none => exact hpick hall htrue
  | atLeast n =>
    cases n with
    | zero => exact hall
    | succ n => exact hpick htrue hall
  | atMost n => exact hpick hall htrue
  | exactly n =>
    simp only [select]
    split
    · exact hall
    · exact hpick htrue hfalse

/-- Positions within a list all pick something. -/
theorem map_getElem?_eq {α : Type} {xs : List α} {positions : List Nat}
    (h : ∀ i ∈ positions, i < xs.length) :
    positions.map (fun i => xs[i]?) =
      (positions.filterMap fun i => xs[i]?).map some := by
  induction positions with
  | nil => rfl
  | cons i rest ih =>
    have hrest := ih fun j hj => h j (List.mem_cons_of_mem i hj)
    obtain ⟨x, hx⟩ : ∃ x, xs[i]? = some x := by
      have hi := h i List.mem_cons_self
      exact ⟨xs[i], List.getElem?_eq_getElem hi⟩
    rw [List.map_cons, List.filterMap_cons_some hx, List.map_cons, hrest, hx]

/-- An operator is explained by operands that it looks at. -/
theorem lt_of_mem_determine {op : Operator} {outcomes : List Bool} {i : Nat}
    (h : i ∈ (determine op outcomes).causes) :
    i < (determine op outcomes).evaluated := by
  rw [determine_eq] at h ⊢
  exact Operator.lt_of_mem_causes h

theorem determine_evaluated_le (op : Operator) (outcomes : List Bool) :
    (determine op outcomes).evaluated ≤ outcomes.length := by
  rw [determine_eq]
  exact (upTo_isPrefix ..).length_le

namespace Result

variable {τ : Type}

/-- The causes of the result are its operands at the positions, one for
each position. -/
def CausedAt (r : Result τ) (positions : List Nat) : Prop :=
  positions.map (fun i => r.operands[i]?) = r.causes.map some

/-- Positions within reach are not dropped. -/
theorem causedAt_ofPositions {operands : List (Result τ)}
    {positions : List Nat} (h : ∀ i ∈ positions, i < operands.length)
    (place : Place) (finding : Finding τ) :
    (ofPositions place finding operands positions).CausedAt positions :=
  map_getElem?_eq h

theorem CausedAt.length_eq {r : Result τ} {positions : List Nat}
    (h : r.CausedAt positions) : positions.length = r.causes.length := by
  simpa using congrArg List.length h

/-- Everything that can be declared keeps its causes. -/
theorem causedAt_of_declared {place : Place} {satisfied : Bool}
    {declaration : Declaration τ} {underlying : List (Result τ)}
    {causes : List Nat} {r : Result τ}
    (h : declared place satisfied declaration underlying causes = .ok r) :
    r.CausedAt causes := by
  obtain ⟨hcauses, rfl⟩ := declared_eq_ok_iff.1 h
  exact causedAt_ofPositions hcauses ..

/-! ## Operator nodes -/

/-- The operator applied again to the outcomes of the operands. -/
def redetermine (op : Operator) (r : Result τ) : Determination :=
  determine op (r.operands.map satisfied)

/-- What the operator makes of the operands is what the node says: all of
them are looked at, the outcome is the same, and the causes stand at the
positions that explain it, in order. -/
structure Determined (op : Operator) (r : Result τ) : Prop where
  evaluated : (redetermine op r).evaluated = r.operands.length
  satisfied : (redetermine op r).satisfied = r.satisfied
  causes : r.CausedAt (redetermine op r).causes
  ascending : (redetermine op r).causes.Pairwise (· < ·)
  reproduced :
    fromOperator r.place op r.operands r.label.statement r.label.style = .ok r

/-- Applied to the operands that were looked at, an operator makes the same
of them as of all operands. -/
theorem determine_reached (op : Operator) (operands : List (Result τ)) :
    determine op ((reached op operands).map Result.satisfied) =
      determine op (operands.map Result.satisfied) := by
  rw [reached_map_satisfied, determine_eq, determine_eq, upTo_upTo,
    op.holds_upTo]

theorem redetermine_applied (place : Place) (op : Operator)
    (operands : List (Result τ)) (statement : String) (style : Notation) :
    redetermine op (applied place op operands statement style) =
      determine op (operands.map Result.satisfied) := by
  rw [redetermine, applied_operands, determine_reached]

/-- An operator that takes all operands takes those that it looks at. -/
theorem accepts_reached {op : Operator} {operands : List (Result τ)}
    (h : op.accepts operands.length) :
    op.accepts (reached op operands).length := by
  rw [← List.length_map (f := Result.satisfied)] at h ⊢
  rw [reached_map_satisfied]
  exact Operator.accepts_upTo h

/-- The causes of an operator are its operands at the positions that
explain it. -/
theorem causedAt_applied (place : Place) (op : Operator)
    (operands : List (Result τ)) (statement : String) (style : Notation) :
    (applied place op operands statement style).CausedAt
      (determine op (operands.map Result.satisfied)).causes := by
  refine causedAt_ofPositions (fun i hi => ?_) ..
  have hevaluated := determine_evaluated_le op (operands.map Result.satisfied)
  have hlt := lt_of_mem_determine hi
  rw [List.length_map] at hevaluated
  rw [List.length_take]
  omega

/-- An operator node says of itself what its operator says of it. -/
theorem determined_applied (place : Place) {op : Operator}
    {operands : List (Result τ)} (statement : String) (style : Notation)
    (haccepts : op.accepts operands.length) :
    (applied place op operands statement style).Determined op := by
  have hagain := redetermine_applied place op operands statement style
  constructor
  · rw [hagain, applied_eq, determine_eq, ← reached_map_satisfied,
      List.length_map]
    rfl
  · rw [hagain, applied_satisfied, determine_eq]
  · rw [hagain]
    exact causedAt_applied ..
  · rw [hagain, determine_eq]
    exact op.pairwise_causes _
  · have hsame := applied_reached place op operands statement style
    have haccepts' := accepts_reached haccepts
    rw [applied_eq place op operands] at hsame ⊢
    exact fromOperator_eq_ok_iff.2 ⟨haccepts', hsame⟩

theorem Shape.determined {r : Result τ} (h : Shape r) {op : Operator}
    (hkind : r.label.kind = .applied op) : r.Determined op := by
  cases h with
  | atomic place satisfied declaration => cases hkind
  | declared place causes kind parts =>
    have hdeclared := kind.symm.trans hkind
    cases hdeclared
  | @applied place op' operands statement style accepts parts =>
    rw [applied_label] at hkind
    obtain rfl : op' = op := Kind.applied.inj hkind
    exact determined_applied place statement style accepts

/-- What a result that can be made rests on can be made. -/
theorem Made.of_reaches {edges : Edges} {r n : Result τ} (h : Made r)
    (hn : r.Reaches edges n) : Made n := by
  induction hn with
  | refl => exact h
  | tail _ hmem ih =>
    cases edges with
    | causes => exact ih.of_mem_causes hmem
    | operands => exact ih.shape.made_of_mem hmem

end Result

/-! ## Every run -/

namespace Specification

variable {τ ν M : Type}

/-- Whether a function of the specification makes the result. -/
def HandsOut : {M : Type} → Specification τ ν M → Result τ → Prop
  | _, .atomic .., _ => False
  | _, .wrapper _ inner _, r => inner.HandsOut r
  | _, .computed _ function _, r =>
    ∃ place m, (function place m).outcome = .ok r
  | _, .composite _ _ _ operands, r => ∃ i, (operands i).HandsOut r
  | _, .quantified _ _ item _, r => item.HandsOut r

theorem makes_of_handsOut {P : Result τ → Prop} {s : Specification τ ν M}
    (h : ∀ r, s.HandsOut r → P r) : s.Makes P := by
  induction s with
  | atomic heading predicate branches => trivial
  | wrapper heading inner branches ih => exact ih h
  | computed heading function branches =>
    intro place m r hr
    exact h r ⟨place, m, hr⟩
  | composite heading op count operands ih =>
    intro i
    exact ih i fun r hr => h r ⟨i, hr⟩
  | quantified heading quantifier item branches ih => exact ih h

end Specification

namespace Result

variable {τ : Type} [Metadata τ]

/-- The results that one can come by.  A specification is evaluated, and
whatever its functions hand out was come by before, or a result is made
from others. -/
inductive Reachable : Result τ → Prop where
  /-- A predicate was evaluated. -/
  | atomic (place : Place) (satisfied : Bool) (declaration : Declaration τ) :
      Reachable (atomic place satisfied declaration)
  /-- Something is declared over other results. -/
  | declared {place : Place} {satisfied : Bool} {declaration : Declaration τ}
      {underlying : List (Result τ)} {causes : List Nat} {r : Result τ}
      (parts : ∀ part ∈ underlying, Reachable part)
      (made : declared place satisfied declaration underlying causes = .ok r) :
      Reachable r
  /-- An operator is applied under a statement. -/
  | fromOperator {place : Place} {op : Operator} {operands : List (Result τ)}
      {statement : String} {style : Notation} {r : Result τ}
      (parts : ∀ part ∈ operands, Reachable part)
      (made : fromOperator place op operands statement style = .ok r) :
      Reachable r
  /-- An operator is applied to a list. -/
  | compose {place : Place} {op : Operator} {operands : List (Result τ)}
      {r : Result τ} (parts : ∀ part ∈ operands, Reachable part)
      (made : compose place op operands = .ok r) : Reachable r
  /-- A binary operator is applied. -/
  | combine {a b : Result τ} (place : Place) {op : Operator}
      (binary : op ≠ .not) (left : Reachable a) (right : Reachable b) :
      Reachable (combine place op a b)
  /-- A result is negated. -/
  | negation {r : Result τ} (place : Place) (part : Reachable r) :
      Reachable (negation place r)
  /-- A specification is evaluated. -/
  | evaluated {ν M : Type} {s : Specification τ ν M} {place : Place} {m : M}
      {r : Result τ} (parts : ∀ part, s.HandsOut part → Reachable part)
      (made : (s.evaluate place m).outcome = .ok r) : Reachable r

/-- Evaluating adds nothing to the ways to make a result. -/
theorem Reachable.made {r : Result τ} (h : Reachable r) : Made r := by
  induction h with
  | atomic place satisfied declaration => exact .atomic ..
  | declared parts made ih => exact .declared ih made
  | fromOperator parts made ih => exact .fromOperator ih made
  | compose parts made ih => exact .compose ih made
  | combine place binary left right iha ihb =>
    exact .combine place binary iha ihb
  | negation place part ih => exact .negation place ih
  | evaluated parts made ih =>
    exact Specification.made_of_evaluate
      (Specification.makes_of_handsOut ih) made

/-- In every result that one can come by, every operator node is what its
operator makes of the operands that the node kept, and its description
counts its causes. -/
theorem determined_of_reaches [DecidableEq τ] {edges : Edges}
    {r n : Result τ} (h : Reachable r) (hn : r.Reaches edges n)
    {op : Operator} (hkind : n.label.kind = .applied op) :
    n.Determined op ∧
      n.description.causalOperandCount = (redetermine op n).causes.length := by
  have hdetermined := (h.made.of_reaches hn).shape.determined hkind
  exact ⟨hdetermined, hdetermined.causes.length_eq.symm⟩

/-- A number that is zero or else small. -/
def zeroOrElseSmall : Specification String Unit Nat :=
  Specification.combine (.root 0) .orElse
    (.atomic ⟨.root 1, "zero", {}⟩ (fun n => pure (n == 0)) none)
    (.atomic ⟨.root 2, "small", {}⟩ (fun n => pure (n < 10)) none)

/-- Zero is zero, so it is not asked whether it is small. -/
def zeroAtOnce : Result String :=
  applied (.root 3) .orElse
    [.atomic ((Place.root 3).child 0) true (.fallback "zero" {} true)]
    "zero || small" {}

/-- The result that stopped early, in a chain of alternatives. -/
def chained : Result String :=
  combine (.root 7) .or
    (combine (.root 6) .or
      (.atomic (.root 4) false (.fallback "odd" {} false)) zeroAtOnce)
    (.atomic (.root 5) true (.fallback "even" {} true))

theorem reachable_zeroAtOnce : Reachable zeroAtOnce := by
  have hmade : (zeroOrElseSmall.evaluate (.root 3) 0).outcome =
      .ok zeroAtOnce := rfl
  refine .evaluated (fun part hpart => ?_) hmade
  obtain ⟨⟨_ | _ | i, hi⟩, hhands⟩ := hpart
  · exact hhands.elim
  · exact hhands.elim
  · change i + 2 < 2 at hi
    omega

theorem reachable_chained : Reachable chained :=
  .combine _ (by decide)
    (.combine _ (by decide) (.atomic ..) reachable_zeroAtOnce) (.atomic ..)

/-- The chain took over the result that stopped early as it was. -/
theorem determined_zeroAtOnce :
    Reachable chained ∧ chained.Reaches .operands zeroAtOnce ∧
      zeroAtOnce.label.kind = .applied .orElse ∧
      zeroAtOnce.Determined .orElse ∧
      zeroAtOnce.description.causalOperandCount =
        (redetermine .orElse zeroAtOnce).causes.length := by
  have hmem : zeroAtOnce ∈ chained.next .operands := by decide
  have hreaches : chained.Reaches .operands zeroAtOnce := .single hmem
  exact ⟨reachable_chained, hreaches, rfl,
    determined_of_reaches reachable_chained hreaches rfl⟩

end Result

end Rationale
