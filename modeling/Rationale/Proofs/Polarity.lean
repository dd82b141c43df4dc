import Mathlib.Algebra.Ring.Parity
import Rationale.Proofs.Built
import Rationale.Proofs.Made

/-!
# Polarity of causes

Without exclusive disjunctions and quantifiers, whatever explains an outcome
has this outcome itself, or the opposite one below a negation.  There are
three groups.

* Paths.  `Node.Path` is a way down from a node, with the nodes that are left
  behind on it.
* Results.  `Family.decidedBy` is the outcome of one operand that decides a
  conjunction or a disjunction.  By `causesAmong_of_decidedBy` the operands
  with this outcome explain it, or else all of them do.  `Plain.step` says
  what one step along causes does to the outcome, and
  `Plain.flips_of_path` what a whole path does.
* Evaluations.  `plain_of_evaluate` says that a specification without
  exclusive disjunctions and quantifiers has such results, and
  `satisfied_of_path` that each path from them has the polarity of the
  negations on it.
-/

namespace Rationale

/-- What is flipped so many times is as before if the number is even. -/
theorem flips_eq_iff {count : Nat} {b : Bool} :
    Bool.not^[count] b = b ↔ Even count := by
  by_cases heven : Even count
  · rw [Bool.involutive_not.iterate_even heven]
    simp [heven]
  · rw [Bool.involutive_not.iterate_odd (Nat.not_even_iff_odd.1 heven)]
    simp [heven]

/-! ## Paths -/

namespace Node

variable {α : Type} {edges : Edges}

/-- Whether a way down from the first node ends at the last one and leaves
the nodes in the list behind, in order. -/
inductive Path (edges : Edges) : Node α → List (Node α) → Node α → Prop where
  /-- Nothing is left behind. -/
  | here (a : Node α) : Path edges a [] a
  /-- One step down leaves the node behind. -/
  | step {a b n : Node α} {passed : List (Node α)} (hb : b ∈ a.next edges)
      (rest : Path edges b passed n) : Path edges a (a :: passed) n

/-- What is reached is reached on a path. -/
theorem reaches_iff_exists_path {a n : Node α} :
    a.Reaches edges n ↔ ∃ passed, Path edges a passed n := by
  constructor
  · intro h
    induction h using Relation.ReflTransGen.head_induction_on with
    | refl => exact ⟨[], .here n⟩
    | head hb _ ih =>
      obtain ⟨passed, hpath⟩ := ih
      exact ⟨_, .step hb hpath⟩
  · rintro ⟨passed, hpath⟩
    induction hpath with
    | here a => exact .refl
    | step hb _ ih => exact ih.step hb

end Node

/-! ## Results -/

/-- The outcome of one operand that decides the outcome of all, for the
families that have one. -/
def Family.decidedBy : Family → Option Bool
  | .conjunction => some false
  | .disjunction => some true
  | .exclusive | .negation => none

/-- An operator is decided by an outcome if one of its operands has it. -/
theorem Operator.holds_eq_iff {op : Operator} {wanted : Bool}
    (h : op.family.decidedBy = some wanted) (outcomes : List Bool) :
    op.holds outcomes = wanted ↔ wanted ∈ outcomes := by
  cases hfamily : op.family with
  | conjunction =>
    rw [hfamily] at h
    obtain rfl := Option.some.inj h
    rw [holds_of_conjunction hfamily, List.all_eq_false]
    simp
  | disjunction =>
    rw [hfamily] at h
    obtain rfl := Option.some.inj h
    rw [holds_of_disjunction hfamily, List.any_eq_true]
    simp
  | exclusive | negation =>
    rw [hfamily] at h
    cases h

/-- If an operator does not have the deciding outcome, no operand has it. -/
theorem Operator.ne_of_holds_ne {op : Operator} {wanted outcome : Bool}
    (h : op.family.decidedBy = some wanted) {outcomes : List Bool}
    (hholds : op.holds outcomes ≠ wanted) (hmem : outcome ∈ outcomes) :
    outcome ≠ wanted := by
  rintro rfl
  exact hholds ((holds_eq_iff h outcomes).2 hmem)

namespace Result

variable {τ : Type}

/-- What explains an operator are the operands that decide it, or all of
them. -/
theorem causesAmong_of_decidedBy {op : Operator} {wanted : Bool}
    (h : op.family.decidedBy = some wanted) (rs : List (Result τ)) :
    causesAmong op rs =
      if op.holds (rs.map satisfied) = wanted then
        rs.filter fun r => r.satisfied = wanted
      else rs := by
  cases hfamily : op.family with
  | conjunction =>
    rw [hfamily] at h
    obtain rfl := Option.some.inj h
    rw [causesAmong, Operator.causes_of_conjunction hfamily,
      Operator.holds_of_conjunction hfamily]
    cases (rs.map satisfied).all id with
    | true => exact pick_allPositions satisfied rs
    | false => exact pick_positionsOf satisfied false rs
  | disjunction =>
    rw [hfamily] at h
    obtain rfl := Option.some.inj h
    rw [causesAmong, Operator.causes_of_disjunction hfamily,
      Operator.holds_of_disjunction hfamily]
    cases (rs.map satisfied).any id with
    | true => exact pick_positionsOf satisfied true rs
    | false => exact pick_allPositions satisfied rs
  | exclusive | negation =>
    rw [hfamily] at h
    cases h

/-- What explains a conjunction or a disjunction has its outcome. -/
theorem satisfied_of_mem_causesAmong {op : Operator} {wanted : Bool}
    (h : op.family.decidedBy = some wanted) {rs : List (Result τ)}
    {cause : Result τ} (hcause : cause ∈ causesAmong op rs) :
    cause.satisfied = op.holds (rs.map satisfied) := by
  rw [causesAmong_of_decidedBy h] at hcause
  by_cases hdecided : op.holds (rs.map satisfied) = wanted
  · rw [if_pos hdecided, List.mem_filter, decide_eq_true_iff] at hcause
    rw [hcause.2, hdecided]
  · rw [if_neg hdecided] at hcause
    have hother : cause.satisfied ≠ wanted :=
      Operator.ne_of_holds_ne h hdecided (List.mem_map_of_mem hcause)
    cases wanted with
    | false => simp_all
    | true => simp_all

/-- Whether the result is that of a negation. -/
def isNegation (r : Result τ) : Bool := r.label.kind = .applied .not

/-- Results of predicates, wrappers, and operators other than exclusive
disjunctions. -/
inductive Plain : Result τ → Prop where
  | atomic (place : Place) (satisfied : Bool) (declaration : Declaration τ) :
      Plain (atomic place satisfied declaration)
  | wrapped (place : Place) {inner : Result τ} (declaration : Declaration τ)
      (part : Plain inner) :
      Plain (Specification.wrapped place inner declaration)
  | applied (place : Place) {op : Operator} {operands : List (Result τ)}
      (statement : String) (style : Notation) (inclusive : op ≠ .xor)
      (accepts : op.accepts operands.length)
      (parts : ∀ part ∈ operands, Plain part) :
      Plain (applied place op operands statement style)

namespace Plain

variable {r : Result τ}

/-- The causes of a plain result are plain. -/
theorem of_mem_causes {cause : Result τ} (h : Plain r)
    (hcause : cause ∈ r.causes) : Plain cause := by
  cases h with
  | atomic place satisfied declaration => cases hcause
  | wrapped place declaration part =>
    rw [List.mem_singleton.1 hcause]
    exact part
  | applied place statement style inclusive accepts parts =>
    exact parts _ (mem_of_mem_causes_applied hcause)

/-- A cause has the outcome of the result, or the opposite one if the result
is a negation. -/
theorem step {cause : Result τ} (h : Plain r) (hcause : cause ∈ r.causes) :
    cause.satisfied = (r.isNegation != r.satisfied) := by
  cases h with
  | atomic place satisfied declaration => cases hcause
  | wrapped place declaration part =>
    rw [List.mem_singleton.1 hcause]
    exact (Bool.false_bne _).symm
  | @applied place op operands statement style inclusive accepts parts =>
    have hnegation : (Result.applied place op operands statement
        style).isNegation = decide (op = .not) := by
      rw [isNegation, applied_label]
      simp
    rw [hnegation, applied_satisfied]
    rw [applied_causes] at hcause
    have hdecided {wanted : Bool} (hop : op ≠ .not)
        (hfamily : op.family.decidedBy = some wanted) :
        cause.satisfied =
          (decide (op = .not) != op.holds (operands.map satisfied)) := by
      rw [satisfied_of_mem_causesAmong hfamily hcause, reached_map_satisfied,
        op.holds_upTo, decide_eq_false hop, Bool.false_bne]
    cases op with
    | xor => exact absurd rfl inclusive
    | and | andAlso => exact hdecided (by decide) rfl
    | or | orElse => exact hdecided (by decide) rfl
    | not =>
      obtain ⟨operand, rfl⟩ := exists_of_accepts_not accepts
      have honly : cause = operand := List.mem_singleton.1 hcause
      simp [honly, Operator.holds]

/-- Along a path the outcome is flipped once for each negation that is left
behind. -/
theorem flips_of_path {n : Result τ} {passed : List (Result τ)}
    (h : Plain r) (hpath : r.Path .causes passed n) :
    n.satisfied = Bool.not^[passed.countP isNegation] r.satisfied := by
  induction hpath with
  | here r => rfl
  | @step r cause n passed hcause rest ih =>
    rw [ih (h.of_mem_causes hcause), h.step hcause, List.countP_cons]
    cases isNegation r with
    | true => rw [if_pos rfl, Function.iterate_succ_apply, Bool.true_bne]
    | false => rw [if_neg Bool.false_ne_true, Nat.add_zero, Bool.false_bne]

end Plain

end Result

/-! ## Evaluations -/

namespace Specification

variable {τ ν M : Type}

/-- Whether a specification is made without exclusive disjunctions and
quantifiers, and its functions hand out such results only. -/
def Plain : {M : Type} → Specification τ ν M → Prop
  | _, .atomic .. => True
  | _, .wrapper _ inner _ => inner.Plain
  | _, .computed _ function _ =>
    ∀ place m r, (function place m).outcome = .ok r → Result.Plain r
  | _, .composite _ op _ operands => op ≠ .xor ∧ ∀ i, (operands i).Plain
  | _, .quantified .. => False

/-- An operator over plain specifications is plain. -/
theorem plain_compose {place : Place} {op : Operator} (inclusive : op ≠ .xor)
    {operands : List (Specification τ ν M)} {style : Notation}
    (h : ∀ operand ∈ operands, operand.Plain) :
    (compose place op operands style).Plain :=
  ⟨inclusive, fun i => h _ (List.get_mem operands i)⟩

/-- So is a chain. -/
theorem Plain.combine {a b : Specification τ ν M} (ha : a.Plain)
    (hb : b.Plain) (place : Place) {op : Operator} (inclusive : op ≠ .xor) :
    (combine place op a b).Plain := by
  have hchain {s : Specification τ ν M} (h : s.Plain) :
      ∀ operand ∈ chainOperands op s, operand.Plain := by
    intro operand hmem
    rcases eq_or_exists_of_mem_chainOperands hmem with
      rfl | ⟨heading, count, operands, i, rfl, rfl⟩
    · exact h
    · exact h.2 i
  refine plain_compose inclusive fun operand hmem => ?_
  rcases List.mem_append.1 hmem with hmem | hmem
  · exact hchain ha operand hmem
  · exact hchain hb operand hmem

variable [Metadata τ]

/-- The results of a plain specification are plain. -/
theorem plain_of_evaluate {s : Specification τ ν M} (h : s.Plain)
    {place : Place} {m : M} {r : Result τ}
    (hr : (s.evaluate place m).outcome = .ok r) : r.Plain := by
  induction s generalizing place r with
  | atomic heading predicate branches =>
    obtain ⟨satisfied, -, declaration, -, rfl⟩ :=
      evaluate_atomic_eq_ok_iff.1 hr
    exact .atomic ..
  | wrapper heading inner branches ih =>
    obtain ⟨result, hresult, declaration, -, rfl⟩ :=
      evaluate_wrapper_eq_ok_iff.1 hr
    exact .wrapped _ _ (ih h hresult)
  | computed heading function branches =>
    obtain ⟨result, hresult, declaration, -, rfl⟩ :=
      evaluate_computed_eq_ok_iff.1 hr
    exact .wrapped _ _ (h _ _ _ hresult)
  | composite heading op count operands ih =>
    obtain ⟨results, hresults, haccepts, rfl⟩ :=
      evaluate_composite_eq_ok_iff.1 hr
    refine .applied _ _ _ h.1 haccepts fun part hpart => ?_
    obtain ⟨i, -, hi⟩ := Traced.exists_of_mem_runUntil _ _ hresults hpart
    exact ih i (h.2 i) hi
  | quantified heading quantifier item branches ih => exact h.elim

/-- Without exclusive disjunctions and quantifiers, the outcome at the end of a
path of causes is that of the root, flipped once for each negation that is left
behind.  So each predicate that is offered as evidence has the outcome of the
root, or the opposite one below an odd number of negations. -/
theorem satisfied_of_path {s : Specification τ ν M} (h : s.Plain)
    {place : Place} {m : M} {r : Result τ}
    (hr : (s.evaluate place m).outcome = .ok r) :
    (∀ passed (n : Result τ), r.Path .causes passed n →
      n.satisfied =
        Bool.not^[passed.countP Result.isNegation] r.satisfied) ∧
    ∀ n : Result τ, r.Reaches .causes n → n.label.kind = .atomic →
      ∃ passed, r.Path .causes passed n ∧
        (n.satisfied = r.satisfied ↔
          Even (passed.countP Result.isNegation)) := by
  have hplain := plain_of_evaluate h hr
  refine ⟨fun passed n hpath => hplain.flips_of_path hpath, ?_⟩
  intro n hn _
  obtain ⟨passed, hpath⟩ := Node.reaches_iff_exists_path.1 hn
  exact ⟨passed, hpath, by rw [hplain.flips_of_path hpath, flips_eq_iff]⟩

/-- Whether a number is odd. -/
def oddProbe : Specification String Unit Nat :=
  .atomic ⟨.root 0, "odd", {}⟩ (fun n => pure (n % 2 == 1)) none

/-- Whether a number is positive. -/
def positiveProbe : Specification String Unit Nat :=
  .atomic ⟨.root 1, "positive", {}⟩ (fun n => pure (0 < n)) none

/-- Not odd, under a name of its own. -/
def paired : Specification String Unit Nat :=
  (Source.specification (negation (.root 2) oddProbe)).toSpecification
    (.root 3) "paired" none

/-- A number is turned down unless it is positive and paired. -/
def turnedDown : Specification String Unit Nat :=
  negation (.root 5) (combine (.root 4) .andAlso positiveProbe paired)

theorem plain_turnedDown : turnedDown.Plain := by
  have hpositive : positiveProbe.Plain := trivial
  have hpaired : paired.Plain :=
    plain_compose (by decide) (List.forall_mem_singleton.2 trivial)
  have hboth := hpositive.combine hpaired (.root 4)
    (by decide : Operator.andAlso ≠ .xor)
  exact plain_compose (by decide) (List.forall_mem_singleton.2 hboth)

/-- Seven is turned down because it is odd.  Two negations are left behind on
the way there. -/
theorem satisfied_of_path_turnedDown :
    turnedDown.Plain ∧ ∃ r n : Result String, ∃ passed,
      (turnedDown.evaluate (.root 6) 7).outcome = .ok r ∧
      r.Path .causes passed n ∧ passed.countP Result.isNegation = 2 ∧
      n.label.statement = "odd" ∧ n.label.kind = .atomic ∧
      n.satisfied = r.satisfied := by
  obtain ⟨r, hr⟩ : ∃ r, (turnedDown.evaluate (.root 6) 7).outcome = .ok r :=
    ⟨_, rfl⟩
  obtain ⟨hflips, -⟩ := satisfied_of_path plain_turnedDown hr
  obtain ⟨passed, n, hpath, hcount, hstatement, hkind⟩ :
      ∃ passed n, r.Path .causes passed n ∧
        passed.countP Result.isNegation = 2 ∧ n.label.statement = "odd" ∧
        n.label.kind = .atomic := by
    obtain rfl := Except.ok.inj hr
    exact ⟨_, _, .step List.mem_cons_self (.step List.mem_cons_self
      (.step List.mem_cons_self (.step List.mem_cons_self (.here _)))),
      rfl, rfl, rfl⟩
  have hsame := hflips passed n hpath
  rw [hcount] at hsame
  exact ⟨plain_turnedDown, r, n, passed, hr, hpath, hcount, hstatement, hkind,
    hsame.trans (flips_eq_iff.2 even_two)⟩

end Specification

end Rationale
