import Mathlib.Data.List.OfFn
import Rationale.Proofs.Causality
import Rationale.Specification.Draft

/-!
# Specifications that can be built

`Specification.Built` lists the ways to make a specification: create one
out of a source or a draft, quantify one, apply an operator, or restyle
one.  `Specification.WellFormed` is what these ways guarantee: an operator
has as many operands as it takes and a statement written from theirs, and
no predicate has a factory that reads an underlying result.
`Built.wellFormed` is the induction over the ways.
-/

namespace Rationale

theorem checked_eq_ok_iff {α : Type 1} {fault : Option Fault} {a b : α} :
    checked fault a = .ok b ↔ fault = none ∧ a = b := by
  cases fault <;> simp [checked]

namespace Specification

variable {τ ν : Type} {M : Type}

/-! ## Ways to make a specification -/

/-- The specifications that can be made.  A default statement and a policy
go the same ways. -/
inductive Built [Metadata τ] : {M : Type} → Specification τ ν M → Prop where
  /-- A source is created under a statement. -/
  | source {M : Type} {source : Source τ ν M} {place : Place}
      {statement : String} {s : Specification τ ν M}
      (parts : ∀ inner, source = .specification inner → Built inner)
      (made : source.create place statement = .ok s) : Built s
  /-- A draft is created under a statement. -/
  | draft {M : Type} {draft : Draft τ ν M} {place : Place}
      {statement : String} {s : Specification τ ν M}
      (parts : ∀ inner, draft.source = .specification inner → Built inner)
      (made : draft.create place statement = .ok s) : Built s
  /-- An item specification is quantified. -/
  | quantifier {I : Type} {draft : QuantifierDraft τ ν I} {place : Place}
      {statement : String} {s : Specification τ ν (List I)}
      (parts : Built draft.item)
      (made : draft.create place statement = .ok s) : Built s
  /-- A binary operator is applied. -/
  | combine {M : Type} {a b : Specification τ ν M} (place : Place)
      {op : Operator} (binary : op ≠ .not) (left : Built a) (right : Built b) :
      Built (combine place op a b)
  /-- A specification is negated. -/
  | negation {M : Type} {s : Specification τ ν M} (place : Place)
      (part : Built s) : Built (negation place s)
  /-- Specifications are joined to one conjunction. -/
  | allOf {M : Type} {operands : List (Specification τ ν M)} {place : Place}
      {s : Specification τ ν M} (parts : ∀ operand ∈ operands, Built operand)
      (made : allOf place operands = .ok s) : Built s
  /-- Specifications are joined to one disjunction. -/
  | anyOf {M : Type} {operands : List (Specification τ ν M)} {place : Place}
      {s : Specification τ ν M} (parts : ∀ operand ∈ operands, Built operand)
      (made : anyOf place operands = .ok s) : Built s
  /-- A specification is restyled. -/
  | restyle {M : Type} {s : Specification τ ν M} (style : Notation)
      (place : Place) (part : Built s) : Built (s.restyle style place)

/-! ## What they guarantee -/

/-- Operators have operands that they take and statements written from
them, and predicates have no factory that reads an underlying result. -/
def WellFormed : {M : Type} → Specification τ ν M → Prop
  | _, .atomic _ _ branches => ∀ pair ∈ branches, ∀ satisfied,
    (pair.taken satisfied).needsUnderlying = false
  | _, .wrapper _ inner _ => inner.WellFormed
  | _, .computed .. => True
  | _, .composite heading op count operands =>
    op.accepts count ∧
      heading.statement = statementOf op (List.ofFn operands) heading.style ∧
      ∀ i, (operands i).WellFormed
  | _, .quantified _ _ item _ => item.WellFormed

theorem wellFormed_compose {place : Place} {op : Operator}
    {operands : List (Specification τ ν M)} {style : Notation}
    (haccepts : op.accepts operands.length)
    (hparts : ∀ operand ∈ operands, operand.WellFormed) :
    (compose place op operands style).WellFormed := by
  refine ⟨haccepts, ?_, fun i => hparts _ (List.get_mem ..)⟩
  rw [List.ofFn_get]

/-- A specification brings itself into a chain, or its operands. -/
theorem eq_or_exists_of_mem_chainOperands {op : Operator}
    {s operand : Specification τ ν M} (hmem : operand ∈ chainOperands op s) :
    operand = s ∨ ∃ heading count operands i,
      s = composite heading op count operands ∧ operand = operands i := by
  rw [chainOperands] at hmem
  split at hmem
  · rename_i hchain
    cases s with
    | composite heading op' count operands =>
      obtain rfl : op' = op := Option.some.inj hchain.1
      obtain ⟨i, rfl⟩ := List.mem_ofFn.1 hmem
      exact Or.inr ⟨heading, count, operands, i, rfl, rfl⟩
    | _ => simp [Specification.operands] at hmem
  · exact Or.inl (List.mem_singleton.1 hmem)

theorem WellFormed.of_mem_chainOperands {op : Operator}
    {s operand : Specification τ ν M} (h : s.WellFormed)
    (hmem : operand ∈ chainOperands op s) : operand.WellFormed := by
  rcases eq_or_exists_of_mem_chainOperands hmem with
    rfl | ⟨heading, count, operands, i, rfl, rfl⟩
  · exact h
  · exact h.2.2 i

theorem chainOperands_ne_nil (op : Operator) {s : Specification τ ν M}
    (h : s.WellFormed) : chainOperands op s ≠ [] := by
  rw [chainOperands]
  split
  · rename_i hchain
    cases s with
    | composite heading op' count operands =>
      have hpos : 0 < count := Operator.pos_of_accepts h.1
      rw [Specification.operands, ne_eq, List.ofFn_eq_nil_iff]
      omega
    | _ => simp [operator] at hchain
  · simp

/-- A specification brings itself under an operator that makes no chains. -/
theorem chainOperands_eq_self {op : Operator} (h : op.isAssociative = false)
    (s : Specification τ ν M) : chainOperands op s = [s] := by
  rw [chainOperands, if_neg (by simp [h])]

theorem length_chainOperands {op : Operator} (h : op.isAssociative = false)
    (s : Specification τ ν M) : (chainOperands op s).length = 1 := by
  rw [chainOperands_eq_self h]
  rfl

/-- A binary operator takes the chains of its two sides together. -/
theorem accepts_chains {op : Operator} (hbinary : op ≠ .not)
    {a : Specification τ ν M} (ha : a.WellFormed) (b : Specification τ ν M) :
    op.accepts (chainOperands op a ++ chainOperands op b).length := by
  have hpos := List.length_pos_iff.2 (chainOperands_ne_nil op ha)
  rw [List.length_append]
  refine op.accepts_add hbinary hpos fun hpair => ?_
  exact ⟨length_chainOperands hpair a, length_chainOperands hpair b⟩

theorem WellFormed.composeAll {place : Place} {op : Operator}
    (hop : op = .and ∨ op = .or) {operands : List (Specification τ ν M)}
    {s : Specification τ ν M} (hmade : composeAll place op operands = .ok s)
    (hparts : ∀ operand ∈ operands, operand.WellFormed) : s.WellFormed := by
  cases operands with
  | nil => simp [Specification.composeAll] at hmade
  | cons first rest =>
    obtain rfl := Except.ok.inj hmade
    refine wellFormed_compose ?_ hparts
    rcases hop with rfl | rfl <;> simp [Operator.accepts]

/-- Restyling keeps a specification well-formed. -/
theorem WellFormed.restyle {s : Specification τ ν M} (h : s.WellFormed)
    (style : Notation) (place : Place) :
    (s.restyle style place).WellFormed := by
  induction s generalizing place with
  | atomic heading predicate branches => exact h
  | wrapper heading inner branches ih => exact ih h _
  | computed heading function branches => trivial
  | composite heading op count operands ih =>
    refine wellFormed_compose ?_ fun operand hmem => ?_
    · rw [List.length_ofFn]
      exact h.1
    · obtain ⟨i, rfl⟩ := List.mem_ofFn.1 hmem
      exact ih i (h.2.2 i) _
  | quantified heading quantifier item branches ih => exact ih h _

variable [Metadata τ]

theorem WellFormed.of_draft {draft : Draft τ ν M} {place : Place}
    {statement : String} {s : Specification τ ν M}
    (hparts : ∀ inner, draft.source = .specification inner → inner.WellFormed)
    (hmade : draft.create place statement = .ok s) : s.WellFormed := by
  obtain ⟨hfault, rfl⟩ := checked_eq_ok_iff.1 hmade
  have hmain : (draft.source.toSpecification place statement
      (some draft.branches)).WellFormed := by
    cases hsource : draft.source with
    | predicate p =>
      have hneeds : draft.branches.whenTrue.needsUnderlying = false ∧
          draft.branches.whenFalse.needsUnderlying = false := by
        simp only [Draft.fault?, Option.orElse_eq_none, hsource,
          Source.isPredicate] at hfault
        simpa using hfault.2.2.2
      intro pair hpair satisfied
      obtain rfl := Option.some.inj hpair
      cases satisfied with
      | true => exact hneeds.1
      | false => exact hneeds.2
    | specification inner => exact hparts inner hsource
    | function f => trivial
  rw [Draft.toSpecification]
  cases draft.style with
  | none => exact hmain
  | some style => exact hmain.restyle style place

/-- A predicate alone is created under any statement that is not blank. -/
theorem Built.atomic {place : Place} {statement : String}
    (hstatement : Text.isBlank statement = false)
    (predicate : M → Traced ν Raised Bool) :
    (atomic (τ := τ) ⟨place, statement, {}⟩ predicate none).Built := by
  have hmade : (Source.predicate (τ := τ) predicate).create place statement =
      .ok (.atomic ⟨place, statement, {}⟩ predicate none) :=
    checked_eq_ok_iff.2 ⟨by rw [statementFault, hstatement]; rfl, rfl⟩
  exact .source (by rintro _ ⟨⟩) hmade

/-- A quantifier is created unless its draft has a fault. -/
theorem Built.quantified {I : Type} {place : Place} {statement : String}
    {draft : QuantifierDraft τ ν I} (hitem : draft.item.Built)
    (hfault : draft.fault? statement = none) :
    (draft.toSpecification place statement).Built :=
  .quantifier hitem (checked_eq_ok_iff.2 ⟨hfault, rfl⟩)

/-- Every specification that can be made is well-formed. -/
theorem Built.wellFormed {s : Specification τ ν M} (h : s.Built) :
    s.WellFormed := by
  induction h with
  | @source M source place statement s parts made ih =>
    obtain ⟨-, rfl⟩ := checked_eq_ok_iff.1 made
    cases source with
    | predicate p => simp [Source.toSpecification, WellFormed]
    | specification inner => exact ih inner rfl
    | function f => trivial
  | draft parts made ih => exact .of_draft ih made
  | quantifier parts made ih =>
    obtain ⟨-, rfl⟩ := checked_eq_ok_iff.1 made
    exact ih
  | combine place binary left right iha ihb =>
    refine wellFormed_compose (accepts_chains binary iha _) ?_
    intro operand hmem
    rcases List.mem_append.1 hmem with hmem | hmem
    · exact iha.of_mem_chainOperands hmem
    · exact ihb.of_mem_chainOperands hmem
  | negation place part ih =>
    refine wellFormed_compose rfl fun operand hmem => ?_
    rw [List.mem_singleton.1 hmem]
    exact ih
  | allOf parts made ih => exact .composeAll (Or.inl rfl) made ih
  | anyOf parts made ih => exact .composeAll (Or.inr rfl) made ih
  | restyle style place part ih => exact ih.restyle style place

end Specification

end Rationale
