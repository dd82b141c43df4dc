import Rationale.Proofs.Composition
import Rationale.Proofs.Restyling
import Rationale.Proofs.Trace

/-!
# Brackets in a chain of specifications

A list of specifications is joined by a binary operator, two neighbours at a
time.  Where the brackets stand does not matter if the operator is
associative: each way makes one node over the operands of all members.  There
are four groups.

* Bracketings.  A `Bracketing` is a list with brackets, and
  `Bracketing.whole` the specification that an operator makes of it.
  `chainOperands_whole` is the induction over the brackets, and `whole_eq`
  says which node comes out.
* The first operand.  A composite has the notation of its first operand,
  however it was built.
* Parts.  `Specification.Part` says that a specification stands somewhere in
  another one.  Every part of a well-formed specification is well-formed.
* The chain.  `SameChain` is what composites have in common that differ only
  in the place at which they were made, and `bracketings_sameChain` puts all
  of this together.
-/

namespace Rationale

/-! ## Bracketings -/

/-- Specifications in a row, with brackets around two neighbours at a time. -/
inductive Bracketing (τ ν M : Type) : Type 1 where
  /-- One specification. -/
  | single (s : Specification τ ν M)
  /-- Two neighbours, joined at a place. -/
  | pair (place : Place) (left right : Bracketing τ ν M)

namespace Specification

variable {τ ν M : Type}

theorem operands_compose (place : Place) (op : Operator)
    (operands : List (Specification τ ν M)) (style : Notation) :
    (compose place op operands style).operands = operands :=
  List.ofFn_get operands

/-- A composite of an associative operator brings its operands into a chain. -/
theorem chainOperands_compose {op : Operator} (hop : op.isAssociative)
    (place : Place) (operands : List (Specification τ ν M))
    (style : Notation) :
    chainOperands op (compose place op operands style) = operands := by
  have hchain : (compose place op operands style).operator = some op ∧
      op.isAssociative := ⟨rfl, hop⟩
  rw [chainOperands, if_pos hchain, operands_compose]

end Specification

namespace Bracketing

open Specification

variable {τ ν M : Type}

/-- The specifications without the brackets. -/
def members : Bracketing τ ν M → List (Specification τ ν M)
  | .single s => [s]
  | .pair _ left right => left.members ++ right.members

/-- The specification that stands first. -/
def first : Bracketing τ ν M → Specification τ ν M
  | .single s => s
  | .pair _ left _ => left.first

/-- The operator applied as the brackets say. -/
def whole (op : Operator) : Bracketing τ ν M → Specification τ ν M
  | .single s => s
  | .pair place left right =>
    combine place op (left.whole op) (right.whole op)

theorem members_head? (t : Bracketing τ ν M) :
    t.members.head? = some t.first := by
  induction t with
  | single s => rfl
  | pair place left right ihLeft ihRight =>
    rw [members, List.head?_append, ihLeft]
    rfl

theorem style_whole (op : Operator) (t : Bracketing τ ν M) :
    (t.whole op).style = t.first.style := by
  induction t with
  | single s => rfl
  | pair place left right ihLeft ihRight => exact ihLeft

/-- Whatever the brackets are, the members bring their operands into the
chain, in order. -/
theorem chainOperands_whole {op : Operator} (hop : op.isAssociative)
    (t : Bracketing τ ν M) :
    chainOperands op (t.whole op) =
      t.members.flatMap (chainOperands op) := by
  induction t with
  | single s => rw [whole, members, List.flatMap_singleton]
  | pair place left right ihLeft ihRight =>
    rw [whole, combine, chainOperands_compose hop, ihLeft, ihRight, members,
      List.flatMap_append]

/-- At least two members make one node over the operands of all. -/
theorem whole_eq {op : Operator} (hop : op.isAssociative)
    {t : Bracketing τ ν M} (h : 2 ≤ t.members.length) :
    ∃ place, t.whole op =
      compose place op (t.members.flatMap (chainOperands op))
        t.first.style := by
  cases t with
  | single s =>
    have hone : (single s).members.length = 1 := rfl
    omega
  | pair place left right =>
    refine ⟨place, ?_⟩
    rw [whole, combine, chainOperands_whole hop, chainOperands_whole hop,
      style_whole, members, List.flatMap_append]
    rfl

theorem built_whole [Metadata τ] {op : Operator} (hop : op ≠ .not)
    {t : Bracketing τ ν M} (h : ∀ s ∈ t.members, s.Built) :
    (t.whole op).Built := by
  induction t with
  | single s => exact h s (List.mem_singleton_self s)
  | pair place left right ihLeft ihRight =>
    obtain ⟨hleft, hright⟩ := List.forall_mem_append.1 h
    exact .combine place hop (ihLeft hleft) (ihRight hright)

end Bracketing

/-! ## The first operand -/

namespace Specification

variable {τ ν M : Type}

/-- Whether a specification has the notation of its first operand, if it has
operands. -/
def StyledByFirst (s : Specification τ ν M) : Prop :=
  ∀ first ∈ s.operands.head?, first.style = s.style

theorem styledByFirst_compose (place : Place) (op : Operator)
    {operands : List (Specification τ ν M)} {style : Notation}
    (h : ∀ first ∈ operands.head?, first.style = style) :
    (compose place op operands style).StyledByFirst := by
  unfold StyledByFirst
  rw [operands_compose]
  exact h

/-- Restyling gives all operands the notation of the whole. -/
theorem styledByFirst_restyle (s : Specification τ ν M) (style : Notation)
    (place : Place) : (s.restyle style place).StyledByFirst := by
  intro first hfirst
  rw [restyle_operands] at hfirst
  obtain ⟨i, hi, rfl⟩ := List.mem_mapIdx.1 (List.mem_of_mem_head? hfirst)
  rw [restyle_style, restyle_style]

theorem styledByFirst_source (source : Source τ ν M) (place : Place)
    (statement : String) (branches : Option (Branches (Factory τ ν M))) :
    (source.toSpecification place statement branches).StyledByFirst := by
  intro first hfirst
  cases source <;> cases hfirst

/-- A specification brings its own notation into a chain. -/
theorem StyledByFirst.chainOperands {s : Specification τ ν M}
    (h : s.StyledByFirst) (op : Operator) :
    ∀ first ∈ (chainOperands op s).head?, first.style = s.style := by
  intro first hfirst
  rw [Specification.chainOperands] at hfirst
  split at hfirst
  · exact h first hfirst
  · obtain rfl := Option.some.inj hfirst
    rfl

theorem styledByFirst_composeAll {place : Place} {op : Operator}
    {operands : List (Specification τ ν M)} {s : Specification τ ν M}
    (hmade : composeAll place op operands = .ok s) : s.StyledByFirst := by
  cases operands with
  | nil => cases hmade
  | cons first rest =>
    obtain rfl := Except.ok.inj hmade
    apply styledByFirst_compose
    intro other hother
    obtain rfl := Option.some.inj hother
    rfl

/-- Every specification that can be made has the notation of its first
operand. -/
theorem Built.styledByFirst [Metadata τ] {s : Specification τ ν M}
    (h : s.Built) : s.StyledByFirst := by
  induction h with
  | source parts made =>
    obtain ⟨-, rfl⟩ := checked_eq_ok_iff.1 made
    exact styledByFirst_source _ _ _ _
  | @draft M draft place statement s parts made =>
    obtain ⟨-, rfl⟩ := checked_eq_ok_iff.1 made
    rw [Draft.toSpecification]
    cases draft.style with
    | none => exact styledByFirst_source _ _ _ _
    | some style => exact styledByFirst_restyle _ _ _
  | quantifier parts made =>
    obtain ⟨-, rfl⟩ := checked_eq_ok_iff.1 made
    intro first hfirst
    cases hfirst
  | combine place binary left right ihLeft ihRight =>
    apply styledByFirst_compose
    rw [List.head?_append_of_ne_nil _ (chainOperands_ne_nil _ left.wellFormed)]
    exact ihLeft.chainOperands _
  | negation place part =>
    apply styledByFirst_compose
    intro first hfirst
    obtain rfl := Option.some.inj hfirst
    rfl
  | allOf parts made => exact styledByFirst_composeAll made
  | anyOf parts made => exact styledByFirst_composeAll made
  | restyle style place part => exact styledByFirst_restyle _ _ _

/-! ## Parts -/

/-- Whether a specification stands somewhere in another one: it is that one,
or it stands in an operand, in what is wrapped or in the items. -/
inductive Part {N : Type} (part : Specification τ ν N) :
    {M : Type} → Specification τ ν M → Prop where
  | self : Part part part
  | wrapper {M : Type} {heading : Heading} {inner : Specification τ ν M}
      {branches : Option (Branches (Factory τ ν M))} (below : Part part inner) :
      Part part (wrapper heading inner branches)
  | operand {M : Type} {heading : Heading} {op : Operator} {count : Nat}
      {operands : Fin count → Specification τ ν M} (i : Fin count)
      (below : Part part (operands i)) :
      Part part (composite heading op count operands)
  | item {I : Type} {heading : Heading} {quantifier : Quantifier}
      {item : Specification τ ν I}
      {branches : Option (Branches (SnapshotFactory τ ν I))}
      (below : Part part item) :
      Part part (quantified heading quantifier item branches)

theorem WellFormed.of_part {N : Type} {part : Specification τ ν N}
    {s : Specification τ ν M} (h : s.WellFormed) (hpart : part.Part s) :
    part.WellFormed := by
  induction hpart with
  | self => exact h
  | wrapper below ih => exact ih h
  | operand i below ih => exact ih (h.2.2 i)
  | item below ih => exact ih h

/-- An operator that is well-formed has as many operands as it takes. -/
theorem WellFormed.accepts_operands {s : Specification τ ν M}
    (h : s.WellFormed) {op : Operator} (hop : s.operator = some op) :
    op.accepts s.operands.length := by
  cases s with
  | composite heading op' count operands =>
    obtain rfl := Option.some.inj hop
    rw [Specification.operands, List.length_ofFn]
    exact h.1
  | _ => cases hop

/-! ## The chain -/

/-- A list that is taken as it is reads as the chain of its members. -/
theorem exists_composeAll {op : Operator} (hop : op ≠ .not)
    {t : Bracketing τ ν M} (hwell : ∀ s ∈ t.members, s.WellFormed)
    (made place : Place) (style : Notation) :
    ∃ s, composeAll made op t.members = .ok s ∧ s.operands = t.members ∧
      s.statement = (compose place op
        (t.members.flatMap (chainOperands op)) style).statement := by
  have hhead := t.members_head?
  cases hmembers : t.members with
  | nil =>
    rw [hmembers] at hhead
    cases hhead
  | cons first rest =>
    rw [hmembers] at hwell
    refine ⟨_, rfl, operands_compose .., ?_⟩
    show statementOf op (first :: rest) first.style = statementOf op _ style
    rw [statementOf_chains hop hwell, statementOf, statementOf,
      composeStatement_eq hop, composeStatement_eq hop]

variable [Metadata τ]

/-- What two composites have in common that differ only in the place at which
they were made: they have the same operands and show the same, and on every
model they invoke the same callbacks and answer the same, or fail alike. -/
structure SameChain (a b : Specification τ ν M) : Prop where
  operator : a.operator = b.operator
  operands : a.operands = b.operands
  statement : a.statement = b.statement
  expression : a.expression = b.expression
  style : a.style = b.style
  calls : ∀ position place m,
    a.calls position place m = b.calls position place m
  evaluate : ∀ place m, a.evaluate place m = b.evaluate place m

theorem sameChain_compose (place place' : Place) (op : Operator)
    (operands : List (Specification τ ν M)) (style : Notation) :
    SameChain (compose place op operands style)
      (compose place' op operands style) :=
  ⟨rfl, rfl, rfl, rfl, rfl, fun _ _ _ => rfl, fun _ _ => rfl⟩

/-- Which node comes out of a bracketing: one over the operands that the
members bring into the chain. -/
structure OneNode (op : Operator) (t : Bracketing τ ν M) : Prop where
  operands : (t.whole op).operands = t.members.flatMap (chainOperands op)
  /-- The notation is that of the first member. -/
  style : ∀ first ∈ t.members.head?, (t.whole op).style = first.style
  /-- It is also that of the first operand. -/
  styledByFirst : (t.whole op).StyledByFirst
  /-- The conjunction of the list keeps the members, and it reads the same. -/
  allOf : op = .and → ∀ made, ∃ s, allOf made t.members = .ok s ∧
    s.operands = t.members ∧ s.statement = (t.whole op).statement
  /-- So does the disjunction of the list. -/
  anyOf : op = .or → ∀ made, ∃ s, anyOf made t.members = .ok s ∧
    s.operands = t.members ∧ s.statement = (t.whole op).statement

theorem oneNode {op : Operator} (hop : op.isAssociative)
    {t : Bracketing τ ν M} (htwo : 2 ≤ t.members.length)
    (hbuilt : ∀ s ∈ t.members, s.Built) : OneNode op t := by
  have hnot : op ≠ .not := by
    rintro rfl
    cases hop
  obtain ⟨place, hwhole⟩ := Bracketing.whole_eq hop htwo
  have hlist (made : Place) := exists_composeAll hnot
    (fun s hs => (hbuilt s hs).wellFormed) made place t.first.style
  rw [← hwhole] at hlist
  constructor
  case operands => rw [hwhole, operands_compose]
  case style =>
    intro first hfirst
    rw [t.members_head?] at hfirst
    obtain rfl := Option.some.inj hfirst
    exact t.style_whole op
  case styledByFirst => exact (Bracketing.built_whole hnot hbuilt).styledByFirst
  case allOf =>
    rintro rfl made
    exact hlist made
  case anyOf =>
    rintro rfl made
    exact hlist made

/-- Whether all exclusive disjunctions in a specification have two operands,
and all negations one. -/
structure FixedCounts (s : Specification τ ν M) : Prop where
  exclusive : ∀ {N : Type} (part : Specification τ ν N), part.Part s →
    part.operator = some .xor → part.operands.length = 2
  negation : ∀ {N : Type} (part : Specification τ ν N), part.Part s →
    part.operator = some .not → part.operands.length = 1

theorem Built.fixedCounts {s : Specification τ ν M} (h : s.Built) :
    s.FixedCounts := by
  constructor
  case exclusive =>
    intro N part hpart hop
    simpa [Operator.accepts] using
      (h.wellFormed.of_part hpart).accepts_operands hop
  case negation =>
    intro N part hpart hop
    simpa [Operator.accepts] using
      (h.wellFormed.of_part hpart).accepts_operands hop

/-- All bracketings of two or more members by an associative operator are the
same chain: one node over the operands of all members, in the notation of the
first one, which reads like the conjunction or disjunction of the list.
Exclusive disjunctions are never flattened: they keep their two sides, and
negations what they negate, wherever they stand. -/
theorem bracketings_sameChain {op : Operator} (hop : op.isAssociative)
    {t t' : Bracketing τ ν M} (hmembers : t.members = t'.members)
    (htwo : 2 ≤ t.members.length) (hbuilt : ∀ s ∈ t.members, s.Built) :
    SameChain (t.whole op) (t'.whole op) ∧ OneNode op t ∧
      (∀ (place : Place) (left right : Bracketing τ ν M),
        ((Bracketing.pair place left right).whole .xor).operands =
          [left.whole .xor, right.whole .xor]) ∧
      ∀ {N : Type} (s : Specification τ ν N), s.Built → s.FixedCounts := by
  have hfirst : t.first = t'.first := by
    apply Option.some.inj
    rw [← t.members_head?, ← t'.members_head?, hmembers]
  obtain ⟨place, hwhole⟩ := Bracketing.whole_eq hop htwo
  obtain ⟨place', hwhole'⟩ := Bracketing.whole_eq hop (hmembers ▸ htwo)
  refine ⟨?_, oneNode hop htwo hbuilt, ?_, fun s hs => hs.fixedCounts⟩
  · rw [hwhole, hwhole', hmembers, hfirst]
    exact sameChain_compose ..
  · intro place left right
    rw [Bracketing.whole, combine, operands_compose,
      chainOperands_eq_self rfl, chainOperands_eq_self rfl]
    rfl

/-- Whether a number is even, or not even and zero. -/
def evenOrZero : Specification String Unit Nat :=
  combine (.root 2) .or
    (.atomic ⟨.root 0, "even", {}⟩ (fun n => pure (n % 2 == 0)) none)
    (.atomic ⟨.root 1, "zero", {}⟩ (fun n => pure (n == 0)) none)

/-- Whether a number is positive and small. -/
def positiveAndSmall : Specification String Unit Nat :=
  combine (.root 5) .and
    (.atomic ⟨.root 3, "positive", {}⟩ (fun n => pure (0 < n)) none)
    (.atomic ⟨.root 4, "small", {}⟩ (fun n => pure (n < 10)) none)

/-- The brackets are on the left. -/
def leftFirst : Bracketing String Unit Nat :=
  .pair (.root 7) (.pair (.root 6) (.single evenOrZero)
    (.single positiveAndSmall)) (.single evenOrZero)

/-- The brackets are on the right. -/
def rightFirst : Bracketing String Unit Nat :=
  .pair (.root 9) (.single evenOrZero)
    (.pair (.root 8) (.single positiveAndSmall) (.single evenOrZero))

/-- A chain in the middle is taken over, and the disjunctions around it are
bracketed. -/
theorem bracketings_sameChain_leftFirst :
    leftFirst.members = rightFirst.members ∧
      2 ≤ leftFirst.members.length ∧
      (∀ s ∈ leftFirst.members, s.Built) ∧
      SameChain (leftFirst.whole .and) (rightFirst.whole .and) ∧
      OneNode .and leftFirst ∧ (leftFirst.whole .and).operands.length = 4 ∧
      (rightFirst.whole .and).statement =
        "(even | zero) & positive & small & (even | zero)" := by
  have hdisjunction : evenOrZero.Built :=
    .combine _ (by decide) (.atomic (by decide) _) (.atomic (by decide) _)
  have hconjunction : positiveAndSmall.Built :=
    .combine _ (by decide) (.atomic (by decide) _) (.atomic (by decide) _)
  have hbuilt : ∀ s ∈ leftFirst.members, s.Built := by
    simp only [leftFirst, Bracketing.members, List.cons_append,
      List.nil_append, List.forall_mem_cons]
    exact ⟨hdisjunction, hconjunction, hdisjunction, by simp⟩
  have hop : Operator.and.isAssociative := rfl
  have hmembers : leftFirst.members = rightFirst.members := rfl
  have htwo : 2 ≤ leftFirst.members.length := by decide
  have h := bracketings_sameChain hop hmembers htwo hbuilt
  exact ⟨hmembers, htwo, hbuilt, h.1, h.2.1, by decide, by decide⟩

end Specification

end Rationale
