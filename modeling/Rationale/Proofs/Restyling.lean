import Mathlib.Data.List.OfFn
import Rationale.Specification.Composition
import Rationale.Specification.Evaluation

/-!
# Laws of restyling

Restyling writes a specification anew in another notation.  It forgets the
notation that was there before, and it can be done before an operator is
applied or after.  Both laws hold up to the places at which the parts of a
specification are made.  There are three groups.

* Restyled composites.  `restyle_composite` is the step that all inductions
  below take at an operator.
* Places.  `Specification.unplaced` forgets where a specification and its
  parts were made.  It shows the same and evaluates to the same.
* Laws.  Two specifications are `Interchangeable` if they differ in their
  places alone.
-/

namespace Rationale

namespace Specification

variable {τ ν : Type} {M : Type}

/-! ## Restyled composites -/

/-- The operator applied to operands that are known by their positions. -/
theorem compose_ofFn (place : Place) (op : Operator) {count : Nat}
    (operands : Fin count → Specification τ ν M) (style : Notation) :
    compose place op (List.ofFn operands) style =
      composite ⟨place, statementOf op (List.ofFn operands) style, style⟩ op
        count operands := by
  have hcast {n : Nat} (hn : n = count) {heading : Heading}
      {parts : Fin n → Specification τ ν M}
      (hparts : ∀ i, parts i = operands (i.cast hn)) :
      composite heading op n parts = composite heading op count operands := by
    subst hn
    rw [show parts = operands from funext hparts]
  unfold compose
  apply hcast (by simp)
  intro i
  simp
  rfl

/-- A restyled composite has the restyled operands and a statement that is
written anew. -/
theorem restyle_composite (heading : Heading) (op : Operator) (count : Nat)
    (operands : Fin count → Specification τ ν M) (style : Notation)
    (place : Place) :
    (composite heading op count operands).restyle style place =
      composite
        ⟨place,
          statementOf op
            (List.ofFn fun i => (operands i).restyle style (place.child i))
            style,
          style⟩
        op count fun i => (operands i).restyle style (place.child i) :=
  compose_ofFn ..

@[simp]
theorem restyle_style (s : Specification τ ν M) (style : Notation)
    (place : Place) : (s.restyle style place).style = style := by
  cases s <;> rfl

@[simp]
theorem restyle_operator (s : Specification τ ν M) (style : Notation)
    (place : Place) : (s.restyle style place).operator = s.operator := by
  cases s <;> rfl

theorem restyle_operands (s : Specification τ ν M) (style : Notation)
    (place : Place) :
    (s.restyle style place).operands =
      s.operands.mapIdx fun i operand =>
        operand.restyle style (place.child i) := by
  cases s with
  | composite heading op count operands =>
    rw [restyle_composite]
    apply List.ext_getElem <;> simp [Specification.operands]
  | _ => rfl

/-- Restyling forgets the notation that was there before. -/
theorem restyle_restyle (s : Specification τ ν M) (style style' : Notation)
    (p q : Place) :
    (s.restyle style p).restyle style' q = s.restyle style' q := by
  induction s generalizing p q with
  | atomic heading predicate branches => rfl
  | wrapper heading inner branches ih => simp only [restyle, ih]
  | computed heading function branches => rfl
  | composite heading op count operands ih =>
    rw [restyle_composite, restyle_composite, restyle_composite]
    simp only [ih]
  | quantified heading quantifier item branches ih => simp only [restyle, ih]

/-! ## Places -/

end Specification

/-- The heading as if it had been made at some fixed place. -/
def Heading.unplaced (heading : Heading) : Heading :=
  { heading with place := .root 0 }

namespace Specification

variable {τ ν : Type} {M : Type}

/-- The specification as if all of it had been made at some fixed place. -/
def unplaced : {M : Type} → Specification τ ν M → Specification τ ν M
  | _, .atomic heading predicate branches =>
    .atomic heading.unplaced predicate branches
  | _, .wrapper heading inner branches =>
    .wrapper heading.unplaced inner.unplaced branches
  | _, .computed heading function branches =>
    .computed heading.unplaced function branches
  | _, .composite heading op count operands =>
    .composite heading.unplaced op count fun i => (operands i).unplaced
  | _, .quantified heading quantifier item branches =>
    .quantified heading.unplaced quantifier item.unplaced branches

theorem unplaced_heading (s : Specification τ ν M) :
    s.unplaced.heading = s.heading.unplaced := by
  cases s <;> rfl

@[simp]
theorem unplaced_statement (s : Specification τ ν M) :
    s.unplaced.statement = s.statement := by
  simp [statement, unplaced_heading, Heading.unplaced]

@[simp]
theorem unplaced_style (s : Specification τ ν M) :
    s.unplaced.style = s.style := by
  simp [style, unplaced_heading, Heading.unplaced]

@[simp]
theorem unplaced_operator (s : Specification τ ν M) :
    s.unplaced.operator = s.operator := by
  cases s <;> rfl

@[simp]
theorem unplaced_operand (s : Specification τ ν M) :
    s.unplaced.operand = s.operand := by
  simp [operand]

theorem unplaced_operands (s : Specification τ ν M) :
    s.unplaced.operands = s.operands.map unplaced := by
  cases s <;> simp [unplaced, operands, List.map_ofFn, Function.comp_def]

theorem unplaced_partStatements (s : Specification τ ν M) :
    s.unplaced.partStatements = s.partStatements := by
  cases s <;> simp [unplaced, partStatements]

theorem unplaced_expression (s : Specification τ ν M) :
    s.unplaced.expression = s.expression := by
  simp [expression, unplaced_partStatements]

theorem unplaced_compose (place : Place) (op : Operator)
    (operands : List (Specification τ ν M)) (style : Notation) :
    (compose place op operands style).unplaced =
      compose (.root 0) op (operands.map unplaced) style := by
  have hstatement : statementOf op (operands.map unplaced) style =
      statementOf op operands style := by
    simp [statementOf, Function.comp_def]
  have hlist : operands.map unplaced =
      List.ofFn fun i => (operands.get i).unplaced := by
    apply List.ext_getElem <;> simp
  conv_rhs => rw [hlist, compose_ofFn, ← hlist, hstatement]
  rfl

/-- Where a restyled specification is made does not show in anything else. -/
theorem unplaced_restyle (s : Specification τ ν M) (style : Notation)
    (p q : Place) :
    (s.restyle style p).unplaced = (s.restyle style q).unplaced := by
  induction s generalizing p q with
  | atomic heading predicate branches => rfl
  | wrapper heading inner branches ih =>
    simp only [restyle, unplaced, Heading.unplaced, ih _ (q.child 0)]
  | computed heading function branches => rfl
  | composite heading op count operands ih =>
    simp only [restyle, unplaced_compose, List.map_ofFn, Function.comp_def,
      fun i => ih i (p.child i) (q.child i)]
  | quantified heading quantifier item branches ih =>
    simp only [restyle, unplaced, Heading.unplaced, ih _ (q.child 0)]

/-- Where a specification was made does not show in its evaluations. -/
theorem evaluate_unplaced [Metadata τ] (s : Specification τ ν M)
    (place : Place) (m : M) :
    s.unplaced.evaluate place m = s.evaluate place m := by
  induction s generalizing place with
  | atomic heading predicate branches => rfl
  | wrapper heading inner branches ih =>
    simp only [unplaced, evaluate, ih]
    rfl
  | computed heading function branches => rfl
  | composite heading op count operands ih =>
    simp only [unplaced, evaluate, ih]
    rfl
  | quantified heading quantifier item branches ih =>
    simp only [unplaced, evaluate, ih]
    rfl

/-! ## Laws -/

/-- Whether two specifications differ at most in the places at which they
and their parts were made: they show the same at every depth, and on every
model and at every place their evaluations are the same. -/
structure Interchangeable [Metadata τ] (a b : Specification τ ν M) :
    Prop where
  statement : a.statement = b.statement
  expression : a.expression = b.expression
  operands : a.operands.map unplaced = b.operands.map unplaced
  everywhere : a.unplaced = b.unplaced
  evaluate : ∀ place m, a.evaluate place m = b.evaluate place m

theorem interchangeable_of_unplaced [Metadata τ] {a b : Specification τ ν M}
    (h : a.unplaced = b.unplaced) : Interchangeable a b where
  statement := by rw [← unplaced_statement, h, unplaced_statement]
  expression := by rw [← unplaced_expression, h, unplaced_expression]
  operands := by rw [← unplaced_operands, h, unplaced_operands]
  everywhere := h
  evaluate place m := by rw [← evaluate_unplaced, h, evaluate_unplaced]

/-- Restyling twice is restyling once. -/
theorem interchangeable_restyle_restyle [Metadata τ]
    (s : Specification τ ν M) (style style' : Notation) (p q q' : Place) :
    Interchangeable ((s.restyle style p).restyle style' q)
      (s.restyle style' q') := by
  apply interchangeable_of_unplaced
  rw [restyle_restyle]
  exact unplaced_restyle ..

/-- A restyled specification brings into a chain what the specification
does, restyled. -/
theorem unplaced_chainOperands_restyle (op : Operator)
    (s : Specification τ ν M) (style : Notation) (place place' : Place) :
    (chainOperands op (s.restyle style place)).map unplaced =
      (chainOperands op s).map fun operand =>
        (operand.restyle style place').unplaced := by
  unfold chainOperands
  rw [restyle_operator]
  split
  · rw [restyle_operands]
    apply List.ext_getElem
    · simp
    · intro i hi hi'
      simp [unplaced_restyle _ style (place.child i) place']
  · simp [unplaced_restyle s style place place']

theorem unplaced_restyle_compose (place : Place) (op : Operator)
    (operands : List (Specification τ ν M)) (style style' : Notation)
    (p q : Place) :
    ((compose place op operands style).restyle style' p).unplaced =
      compose (.root 0) op
        (operands.map fun operand => (operand.restyle style' q).unplaced)
        style' := by
  rw [compose, restyle, unplaced_compose]
  congr 1
  apply List.ext_getElem
  · simp
  · intro i hi hi'
    simp [unplaced_restyle _ style' (p.child i) q]

/-- An operator may be applied before or after restyling. -/
theorem interchangeable_combine_restyle [Metadata τ] (op : Operator)
    (a b : Specification τ ν M) (style : Notation)
    (made made' p q q' : Place) :
    Interchangeable ((combine made op a b).restyle style p)
      (combine made' op (a.restyle style q) (b.restyle style q')) := by
  apply interchangeable_of_unplaced
  unfold combine
  rw [unplaced_restyle_compose _ _ _ _ _ _ q, unplaced_compose,
    restyle_style, List.map_append, List.map_append,
    unplaced_chainOperands_restyle _ _ _ _ q,
    unplaced_chainOperands_restyle _ _ _ _ q]

/-- A negation may be made before or after restyling. -/
theorem interchangeable_negation_restyle [Metadata τ]
    (s : Specification τ ν M) (style : Notation) (made made' p q : Place) :
    Interchangeable ((negation made s).restyle style p)
      (negation made' (s.restyle style q)) := by
  apply interchangeable_of_unplaced
  unfold negation
  rw [unplaced_restyle_compose _ _ _ _ _ _ q, unplaced_compose,
    restyle_style]
  rfl

end Specification

end Rationale
