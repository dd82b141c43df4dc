import Rationale.Proofs.Evaluation
import Rationale.Proofs.Node

/-!
# Results that can be made

`Result.Made` lists the ways to make a result: out of a predicate, as a
declaration over other results, by an operator over a list, and by combining
or negating results.  A result may be shared by any number of others.

`Made.shape` is the induction over the ways.  It says that only three kinds
of nodes come out of them, and that an operator has as many operands as it
takes.  `Composed` are the results among them that nothing is declared over,
with a condition on what the predicates declare and one on the operators.
-/

namespace Rationale

namespace Result

variable {τ : Type}

/-! ## Ways to make a result -/

/-- The results that can be made.  The conjunction and the disjunction of a
list go the way of `compose`. -/
inductive Made : Result τ → Prop where
  /-- A predicate was evaluated. -/
  | atomic (place : Place) (satisfied : Bool) (declaration : Declaration τ) :
      Made (atomic place satisfied declaration)
  /-- Something is declared over other results. -/
  | declared {place : Place} {satisfied : Bool} {declaration : Declaration τ}
      {underlying : List (Result τ)} {causes : List Nat} {r : Result τ}
      (parts : ∀ part ∈ underlying, Made part)
      (made : declared place satisfied declaration underlying causes = .ok r) :
      Made r
  /-- An operator is applied under a statement. -/
  | fromOperator {place : Place} {op : Operator} {operands : List (Result τ)}
      {statement : String} {style : Notation} {r : Result τ}
      (parts : ∀ part ∈ operands, Made part)
      (made : fromOperator place op operands statement style = .ok r) : Made r
  /-- An operator is applied to a list. -/
  | compose {place : Place} {op : Operator} {operands : List (Result τ)}
      {r : Result τ} (parts : ∀ part ∈ operands, Made part)
      (made : compose place op operands = .ok r) : Made r
  /-- A binary operator is applied. -/
  | combine {a b : Result τ} (place : Place) {op : Operator}
      (binary : op ≠ .not) (left : Made a) (right : Made b) :
      Made (combine place op a b)
  /-- A result is negated. -/
  | negation {r : Result τ} (place : Place) (part : Made r) :
      Made (negation place r)

/-! ## What they make -/

/-- What a result is, if it can be made. -/
inductive Shape : Result τ → Prop where
  | atomic (place : Place) (satisfied : Bool) (declaration : Declaration τ) :
      Shape (Result.atomic place satisfied declaration)
  | declared (place : Place) {finding : Finding τ}
      {underlying : List (Result τ)} (causes : List Nat)
      (kind : finding.kind = .declared)
      (parts : ∀ part ∈ underlying, Made part) :
      Shape (ofPositions place finding underlying causes)
  | applied (place : Place) {op : Operator} {operands : List (Result τ)}
      (statement : String) (style : Notation)
      (accepts : op.accepts operands.length)
      (parts : ∀ part ∈ operands, Made part) :
      Shape (Result.applied place op operands statement style)

theorem reached_ne_nil (op : Operator) {operands : List (Result τ)}
    (h : operands ≠ []) : reached op operands ≠ [] :=
  List.length_pos_iff.1 (length_upTo_pos _ h)

theorem ne_nil_of_accepts {op : Operator} {operands : List (Result τ)}
    (h : op.accepts operands.length) : operands ≠ [] :=
  List.length_pos_iff.1 (Operator.pos_of_accepts h)

/-- A negation takes one operand. -/
theorem exists_of_accepts_not {operands : List (Result τ)}
    (h : Operator.not.accepts operands.length) :
    ∃ operand, operands = [operand] := by
  rw [Operator.accepts, beq_iff_eq] at h
  exact List.length_eq_one_iff.1 h

theorem mem_of_mem_causes_ofPositions {place : Place} {finding : Finding τ}
    {operands : List (Result τ)} {causes : List Nat} {cause : Result τ}
    (h : cause ∈ (ofPositions place finding operands causes).causes) :
    cause ∈ operands := by
  obtain ⟨i, -, hi⟩ := List.mem_filterMap.1 h
  exact List.mem_of_getElem? hi

/-- The operands of a result of this shape can be made. -/
theorem Shape.made_of_mem {r part : Result τ} (h : Shape r)
    (hpart : part ∈ r.operands) : Made part := by
  cases h with
  | atomic place satisfied declaration => cases hpart
  | declared place causes kind parts => exact parts part hpart
  | applied place statement style accepts parts =>
    rw [applied_eq] at hpart
    exact parts part (reached_subset _ _ hpart)

/-- The causes of a result of this shape are operands. -/
theorem Shape.causes_subset {r : Result τ} (h : Shape r) :
    r.causes ⊆ r.operands := by
  intro cause hcause
  cases h with
  | atomic place satisfied declaration => cases hcause
  | declared place causes kind parts =>
    exact mem_of_mem_causes_ofPositions hcause
  | applied place statement style accepts parts =>
    exact mem_of_mem_causes_ofPositions hcause

theorem mem_chainOperands {op : Operator} {r part : Result τ}
    (h : part ∈ chainOperands op r) : part = r ∨ part ∈ r.operands := by
  rw [chainOperands] at h
  split at h
  · exact Or.inr h
  · exact Or.inl (List.mem_singleton.1 h)

/-- What a result brings into a chain has a property if the result and its
operands have it. -/
theorem forall_mem_chainOperands {P : Result τ → Prop} {r : Result τ}
    (h : P r) (hbelow : ∀ part ∈ r.operands, P part) (op : Operator) :
    ∀ part ∈ chainOperands op r, P part := by
  intro part hpart
  rcases mem_chainOperands hpart with rfl | hpart
  · exact h
  · exact hbelow part hpart

/-- A result of this shape brings something into every chain. -/
theorem Shape.chainOperands_ne_nil {r : Result τ} (h : Shape r)
    (op : Operator) : Result.chainOperands op r ≠ [] := by
  rw [Result.chainOperands]
  split
  · rename_i hchain
    cases h with
    | atomic place satisfied declaration => cases hchain.1
    | declared place causes kind parts =>
      have hkind := kind.symm.trans hchain.1
      cases hkind
    | applied place statement style accepts parts =>
      rw [applied_eq]
      exact reached_ne_nil _ (ne_nil_of_accepts accepts)
  · exact List.cons_ne_nil _ _

theorem length_chainOperands {op : Operator}
    (h : op.isAssociative = false) (r : Result τ) :
    (chainOperands op r).length = 1 := by
  rw [chainOperands, if_neg (by simp [h])]
  rfl

/-- A binary operator takes what two results bring into a chain of it. -/
theorem Shape.accepts_chains {a : Result τ} (h : Shape a) (b : Result τ)
    {op : Operator} (binary : op ≠ .not) :
    op.accepts
      (Result.chainOperands op a ++ Result.chainOperands op b).length := by
  rw [List.length_append]
  refine op.accepts_add binary
    (List.length_pos_iff.2 (h.chainOperands_ne_nil op)) fun hpair => ?_
  exact ⟨length_chainOperands hpair a, length_chainOperands hpair b⟩

/-- Every result that can be made has one of the shapes. -/
theorem Made.shape {r : Result τ} (h : Made r) : Shape r := by
  induction h with
  | atomic place satisfied declaration => exact .atomic ..
  | declared parts made =>
    obtain ⟨-, rfl⟩ := declared_eq_ok_iff.1 made
    exact .declared _ _ rfl parts
  | fromOperator parts made =>
    obtain ⟨haccepts, rfl⟩ := fromOperator_eq_ok_iff.1 made
    exact .applied _ _ _ haccepts parts
  | compose parts made =>
    obtain ⟨haccepts, rfl⟩ := fromOperator_eq_ok_iff.1 made
    exact .applied _ _ _ haccepts parts
  | @combine a b place op binary left right iha ihb =>
    refine .applied _ _ _ (iha.accepts_chains b binary)
      (List.forall_mem_append.2 ⟨?_, ?_⟩)
    · exact forall_mem_chainOperands left (fun _ => iha.made_of_mem) op
    · exact forall_mem_chainOperands right (fun _ => ihb.made_of_mem) op
  | negation place part ih =>
    refine .applied _ _ _ rfl fun other hother => ?_
    rw [List.mem_singleton.1 hother]
    exact part

/-- The causes of a result that can be made can be made. -/
theorem Made.of_mem_causes {r cause : Result τ} (h : Made r)
    (hcause : cause ∈ r.causes) : Made cause :=
  h.shape.made_of_mem (h.shape.causes_subset hcause)

/-! ## Operators over predicates -/

/-- Results that certain operators make of predicates with certain
declarations. -/
inductive Composed (states : Declaration τ → Prop)
    (allowed : Operator → Prop) : Result τ → Prop where
  | atomic (place : Place) (satisfied : Bool) {declaration : Declaration τ}
      (declares : states declaration) :
      Composed states allowed (Result.atomic place satisfied declaration)
  | applied (place : Place) {op : Operator} {operands : List (Result τ)}
      (statement : String) (style : Notation) (member : allowed op)
      (accepts : op.accepts operands.length)
      (parts : ∀ part ∈ operands, Composed states allowed part) :
      Composed states allowed
        (Result.applied place op operands statement style)

namespace Composed

variable {states : Declaration τ → Prop} {allowed : Operator → Prop}
  {r : Result τ}

theorem made (h : Composed states allowed r) : Made r := by
  induction h with
  | atomic place satisfied declares => exact .atomic ..
  | applied place statement style member accepts parts ih =>
    exact .fromOperator ih (fromOperator_eq_ok_iff.2 ⟨accepts, rfl⟩)

theorem of_mem_operands {part : Result τ} (h : Composed states allowed r)
    (hpart : part ∈ r.operands) : Composed states allowed part := by
  cases h with
  | atomic place satisfied declares => cases hpart
  | applied place statement style member accepts parts =>
    rw [applied_operands] at hpart
    exact parts part (reached_subset _ _ hpart)

theorem compose {place : Place} {op : Operator} {operands : List (Result τ)}
    (member : allowed op)
    (parts : ∀ part ∈ operands, Composed states allowed part)
    (made : Result.compose place op operands = .ok r) :
    Composed states allowed r := by
  obtain ⟨haccepts, rfl⟩ := fromOperator_eq_ok_iff.1 made
  exact .applied _ _ _ member haccepts parts

theorem combine {a b : Result τ} (ha : Composed states allowed a)
    (hb : Composed states allowed b) (place : Place) {op : Operator}
    (member : allowed op) (binary : op ≠ .not) :
    Composed states allowed (Result.combine place op a b) := by
  refine .applied _ _ _ member (ha.made.shape.accepts_chains b binary)
    (List.forall_mem_append.2 ⟨?_, ?_⟩)
  · exact forall_mem_chainOperands ha (fun _ => ha.of_mem_operands) op
  · exact forall_mem_chainOperands hb (fun _ => hb.of_mem_operands) op

theorem negation (h : Composed states allowed r) (place : Place)
    (member : allowed .not) :
    Composed states allowed (Result.negation place r) :=
  .applied _ _ _ member rfl (List.forall_mem_singleton.2 h)

end Composed

end Result

/-! ## Evaluations -/

namespace Specification

variable {τ ν M : Type}

/-- Whether all functions that make results make such results. -/
def Makes (P : Result τ → Prop) : {M : Type} → Specification τ ν M → Prop
  | _, .atomic .. => True
  | _, .wrapper _ inner _ => inner.Makes P
  | _, .computed _ function _ =>
    ∀ place m r, (function place m).outcome = .ok r → P r
  | _, .composite _ _ _ operands => ∀ i, (operands i).Makes P
  | _, .quantified _ _ item _ => item.Makes P

theorem made_wrapped {inner : Result τ} (h : Result.Made inner)
    (place : Place) (declaration : Declaration τ) :
    Result.Made (wrapped place inner declaration) := by
  have hmade : Result.declared place inner.satisfied declaration [inner] [0] =
      .ok (wrapped place inner declaration) :=
    Result.declared_eq_ok (by simp) place inner.satisfied declaration
  refine .declared (fun part hpart => ?_) hmade
  rw [List.mem_singleton.1 hpart]
  exact h

variable [Metadata τ]

/-- The result of an evaluation can be made, if the results can that are
handed out by functions. -/
theorem made_of_evaluate {s : Specification τ ν M} (hmakes : s.Makes Result.Made)
    {place : Place} {m : M} {r : Result τ}
    (hr : (s.evaluate place m).outcome = .ok r) : Result.Made r := by
  induction s generalizing place r with
  | atomic heading predicate branches =>
    obtain ⟨satisfied, -, declaration, -, rfl⟩ :=
      evaluate_atomic_eq_ok_iff.1 hr
    exact .atomic ..
  | wrapper heading inner branches ih =>
    obtain ⟨result, hresult, declaration, -, rfl⟩ :=
      evaluate_wrapper_eq_ok_iff.1 hr
    exact made_wrapped (ih hmakes hresult) ..
  | computed heading function branches =>
    obtain ⟨result, hresult, declaration, -, rfl⟩ :=
      evaluate_computed_eq_ok_iff.1 hr
    exact made_wrapped (hmakes _ _ _ hresult) ..
  | composite heading op count operands ih =>
    obtain ⟨results, hresults, haccepts, happlied⟩ :=
      evaluate_composite_eq_ok_iff.1 hr
    refine .fromOperator (fun part hpart => ?_)
      (Result.fromOperator_eq_ok_iff.2 ⟨haccepts, happlied⟩)
    obtain ⟨i, -, hi⟩ := Traced.exists_of_mem_runUntil _ _ hresults hpart
    exact ih i (hmakes i) hi
  | quantified heading quantifier item branches ih =>
    obtain ⟨results, hresults, declaration, -, rfl⟩ :=
      evaluate_quantified_eq_ok_iff.1 hr
    refine .declared (fun part hpart => ?_)
      (Result.declared_eq_ok lt_of_mem_select place _ declaration)
    obtain ⟨entry, -, hentry⟩ :=
      Traced.exists_of_mem_runUntil _ _ hresults hpart
    exact ih hmakes hentry

end Specification

/-! ## An example -/

namespace Result

/-- A number is even because it is not odd. -/
def even : Result String :=
  negation (.root 1) (atomic (.root 0) false (.fallback "odd" {} false))

/-- The number is even, so it does not matter that it is not small. -/
def evenOrSmall : Result String :=
  combine (.root 3) .or even
    (atomic (.root 2) false (.fallback "small" {} false))

/-- Both are declared together.  The first one is explained by the second
one. -/
def accepted : Result String :=
  ofPositions (.root 4)
    { Declaration.forwarding "accepted" {} with
      satisfied := true, kind := .declared }
    [evenOrSmall, even] [0, 1]

theorem made_accepted : Made accepted := by
  have heven : Made even := .negation _ (.atomic ..)
  have hparts : ∀ part ∈ [evenOrSmall, even], Made part := by
    simp only [List.forall_mem_cons]
    exact ⟨.combine _ (by decide) heven (.atomic ..), heven, by simp⟩
  exact .declared hparts (declared_eq_ok (by decide) _ true _)

end Result

end Rationale
