import Rationale.Proofs.Composition
import Rationale.Proofs.Phrase

/-!
# Statements are unambiguous

The statement of a composite leaves brackets out where it can.  What it
says can be read off it nevertheless.  There are three groups.

* Leaves.  `Specification.leaves` are the parts that no operator was applied
  to make, and `Specification.holds` is what a specification says under an
  assignment of truth values to their statements.
* Reading.  `Specification.ReadAs` says that a chain is the statement
  written down, that it says the same, and that it can go without brackets
  where the statement does.  `WellFormed.exists_readAs` finds such a chain,
  by induction on the specification.
* Evaluation.  `evaluate_of_answers` says that an evaluation in which the
  leaves answer as assigned answers what the specification says.
-/

namespace Rationale

namespace Specification

variable {τ ν : Type} {M : Type}

/-! ## Leaves -/

/-- The parts that no operator was applied to make, in order. -/
def leaves : {M : Type} → Specification τ ν M → List (Specification τ ν M)
  | _, .composite _ _ count operands =>
    (List.finRange count).flatMap fun i => (operands i).leaves
  | _, s => [s]

/-- Whether the specification and its operands, at every depth, have the
usual notation. -/
def UsualStyle : {M : Type} → Specification τ ν M → Prop
  | _, .composite heading _ _ operands =>
    heading.style = {} ∧ ∀ i, (operands i).UsualStyle
  | _, s => s.style = {}

/-- What the specification says, if `v` tells of every statement of a leaf
whether it is true. -/
def holds (v : String → Bool) : {M : Type} → Specification τ ν M → Bool
  | _, .composite _ op _ operands =>
    op.holds (List.ofFn fun i => (operands i).holds v)
  | _, s => v s.statement

/-- A specification that no operator was applied to make says its own
statement. -/
theorem holds_of_operator {s : Specification τ ν M} (h : s.operator = none)
    (v : String → Bool) : s.holds v = v s.statement := by
  cases s with
  | composite heading op count operands => cases h
  | _ => rfl

/-! ## Reading -/

/-- The chain is the statement written down, it says the same, and it is
open wherever the statement stands without brackets. -/
structure ReadAs (s : Specification τ ν M) (c : Chain) : Prop where
  text : c.text = s.statement.toList
  holds : ∀ v, c.holds v = s.holds v
  isOpen : ∀ op : Operator, op.bracketsChild s.operator = false → c.Open op

theorem exists_readAs_of_operator {s : Specification τ ν M}
    (h : s.operator = none) (hname : IsName s.statement) :
    ∃ c, s.ReadAs c := by
  refine ⟨.one (.name ⟨s.statement, hname⟩), rfl, fun v => ?_, fun _ _ => ?_⟩
  · exact (holds_of_operator h v).symm
  · trivial

/-- An operator leaves no brackets around its own chains only. -/
theorem eq_of_bracketsChild {parent child : Operator} (hchild : child ≠ .not)
    (h : parent.bracketsChild (some child) = false) : parent = child := by
  cases parent <;> cases child <;>
    first | rfl | exact absurd rfl hchild | cases h

/-- A negation is read as the negation of a phrase. -/
theorem exists_readAs_negation {heading : Heading}
    {operands : Fin 1 → Specification τ ν M} {c : Chain}
    (h : (operands 0).ReadAs c) (hstyle : heading.style = {})
    (hstatement : heading.statement =
      statementOf .not (List.ofFn operands) heading.style) :
    ∃ c, (composite heading .not 1 operands).ReadAs c := by
  obtain ⟨phrase, hphrase⟩ :=
    Chain.exists_one_of_open_not (Chain.open_under (h.isOpen .not))
  have htext : phrase.text =
      ((operands 0).operand.bracketed .not).toList := by
    rw [← Chain.text_under (operands 0).operand h.text]
    exact (congrArg Chain.text hphrase).symm
  have hholds (v : String → Bool) : phrase.holds v = (operands 0).holds v := by
    rw [← h.holds, ← Chain.holds_under .not (operands 0).operator, hphrase]
    rfl
  refine ⟨.one (.not phrase), ?_, fun v => ?_, fun _ _ => trivial⟩
  · rw [statement, Specification.heading, hstatement, hstyle, Chain.text,
      Phrase.text, htext]
    simp [statementOf, composeStatement]
  · rw [Chain.holds, Phrase.holds, hholds]
    simp [Specification.holds, Operator.holds]

/-- A binary operator is read as the chain of its operands. -/
theorem readAs_join {heading : Heading} {op : Operator} (hop : op ≠ .not)
    {n : Nat} {operands : Fin (n + 1) → Specification τ ν M}
    {chains : Fin (n + 1) → Chain} (h : ∀ i, (operands i).ReadAs (chains i))
    (hstatement : heading.statement =
      statementOf op (List.ofFn operands) heading.style) :
    (composite heading op (n + 1) operands).ReadAs
      (.join op ((chains 0).under op (operands 0).operator)
        (List.ofFn fun i : Fin n =>
          (chains i.succ).under op (operands i.succ).operator)) := by
  have hparts := List.ofFn_succ
    (f := fun i => (chains i).under op (operands i).operator)
  have hopen : ∀ c ∈ List.ofFn fun i =>
      (chains i).under op (operands i).operator, c.Open op := by
    intro c hc
    obtain ⟨i, rfl⟩ := List.mem_ofFn.1 hc
    exact Chain.open_under ((h i).isOpen op)
  have htext (i : Fin (n + 1)) :
      ((chains i).under op (operands i).operator).text =
        ((operands i).operand.bracketed op).toList :=
    Chain.text_under (operands i).operand (h i).text
  have hholds (v : String → Bool) (i : Fin (n + 1)) :
      ((chains i).under op (operands i).operator).holds v =
        (operands i).holds v := by
    rw [Chain.holds_under, (h i).holds]
  rw [hparts] at hopen
  refine ⟨?_, fun v => ?_, fun parent hparent => ?_⟩
  · rw [Chain.text_join, ← hparts, statement, Specification.heading,
      hstatement, statementOf, composeStatement_eq hop,
      String.toList_intercalate, List.map_map, List.map_map, List.map_ofFn,
      List.map_ofFn]
    exact congrArg (fun f => op.separator.intercalate (List.ofFn f))
      (funext htext)
  · rw [Chain.holds_join hop hopen, ← hparts, List.map_ofFn,
      Specification.holds]
    exact congrArg (fun f => op.holds (List.ofFn f)) (funext (hholds v))
  · obtain rfl := eq_of_bracketsChild hop hparent
    exact Chain.Open.join hop hopen

/-- A statement can be read as a chain that says what the specification
says. -/
theorem WellFormed.exists_readAs {s : Specification τ ν M}
    (hformed : s.WellFormed) (hstyle : s.UsualStyle)
    (hnames : ∀ leaf ∈ s.leaves, IsName leaf.statement) :
    ∃ c, s.ReadAs c := by
  induction s with
  | atomic heading predicate branches =>
    exact exists_readAs_of_operator rfl (hnames _ List.mem_cons_self)
  | wrapper heading inner branches ih =>
    exact exists_readAs_of_operator rfl (hnames _ List.mem_cons_self)
  | computed heading function branches =>
    exact exists_readAs_of_operator rfl (hnames _ List.mem_cons_self)
  | quantified heading quantifier item branches ih =>
    exact exists_readAs_of_operator rfl (hnames _ List.mem_cons_self)
  | composite heading op count operands ih =>
    obtain ⟨haccepts, hstatement, hparts⟩ := hformed
    have hread : ∀ i, ∃ c, (operands i).ReadAs c := by
      refine fun i => ih i (hparts i) (hstyle.2 i) fun leaf hleaf => ?_
      exact hnames leaf
        (List.mem_flatMap.2 ⟨i, List.mem_finRange i, hleaf⟩)
    choose chains hchains using hread
    by_cases hop : op = .not
    · subst hop
      obtain rfl : count = 1 := by simpa [Operator.accepts] using haccepts
      exact exists_readAs_negation (hchains 0) hstyle.1 hstatement
    · obtain ⟨n, rfl⟩ : ∃ n, count = n + 1 :=
        Nat.exists_eq_add_one_of_ne_zero
          (Operator.pos_of_accepts haccepts).ne'
      exact ⟨_, readAs_join hop hchains hstatement⟩

/-! ## Legible specifications -/

theorem UsualStyle.style_eq {s : Specification τ ν M} (h : s.UsualStyle) :
    s.style = {} := by
  cases s with
  | composite heading op count operands => exact h.1
  | _ => exact h

theorem usualStyle_compose {place : Place} {op : Operator}
    {operands : List (Specification τ ν M)} {style : Notation}
    (hstyle : style = {}) (h : ∀ operand ∈ operands, operand.UsualStyle) :
    (compose place op operands style).UsualStyle :=
  ⟨hstyle, fun i => h _ (List.get_mem operands i)⟩

theorem UsualStyle.of_mem_chainOperands {op : Operator}
    {s operand : Specification τ ν M} (h : s.UsualStyle)
    (hmem : operand ∈ chainOperands op s) : operand.UsualStyle := by
  rcases eq_or_exists_of_mem_chainOperands hmem with
    rfl | ⟨heading, count, operands, i, rfl, rfl⟩
  · exact h
  · exact h.2 i

/-- The leaves of an operator are those of its operands. -/
theorem mem_leaves_compose {place : Place} {op : Operator}
    {operands : List (Specification τ ν M)} {style : Notation}
    {leaf : Specification τ ν M} :
    leaf ∈ (compose place op operands style).leaves ↔
      ∃ operand ∈ operands, leaf ∈ operand.leaves := by
  rw [compose, leaves, List.mem_flatMap]
  constructor
  · rintro ⟨i, -, hleaf⟩
    exact ⟨_, List.get_mem operands i, hleaf⟩
  · rintro ⟨operand, hmem, hleaf⟩
    obtain ⟨i, rfl⟩ := List.get_of_mem hmem
    exact ⟨i, List.mem_finRange i, hleaf⟩

theorem mem_leaves_of_mem_chainOperands {op : Operator}
    {s operand leaf : Specification τ ν M}
    (hmem : operand ∈ chainOperands op s) (hleaf : leaf ∈ operand.leaves) :
    leaf ∈ s.leaves := by
  rcases eq_or_exists_of_mem_chainOperands hmem with
    rfl | ⟨heading, count, operands, i, rfl, rfl⟩
  · exact hleaf
  · exact List.mem_flatMap.2 ⟨i, List.mem_finRange i, hleaf⟩

variable [Metadata τ]

/-- A specification whose statement is made of names, in the usual
notation. -/
structure Legible (s : Specification τ ν M) : Prop where
  built : s.Built
  style : s.UsualStyle
  names : ∀ leaf ∈ s.leaves, IsName leaf.statement

/-- Binary operators keep specifications legible. -/
theorem Legible.combine {a b : Specification τ ν M} (ha : a.Legible)
    (hb : b.Legible) (place : Place) {op : Operator} (binary : op ≠ .not) :
    (combine place op a b).Legible := by
  refine ⟨.combine place binary ha.built hb.built, ?_, ?_⟩
  · refine usualStyle_compose ha.style.style_eq fun operand hmem => ?_
    rcases List.mem_append.1 hmem with hmem | hmem
    · exact ha.style.of_mem_chainOperands hmem
    · exact hb.style.of_mem_chainOperands hmem
  · intro leaf hleaf
    obtain ⟨operand, hmem, hleaf⟩ := mem_leaves_compose.1 hleaf
    rcases List.mem_append.1 hmem with hmem | hmem
    · exact ha.names leaf (mem_leaves_of_mem_chainOperands hmem hleaf)
    · exact hb.names leaf (mem_leaves_of_mem_chainOperands hmem hleaf)

/-- So does a negation. -/
theorem Legible.negation {s : Specification τ ν M} (h : s.Legible)
    (place : Place) : (negation place s).Legible := by
  refine ⟨.negation place h.built, ?_, ?_⟩
  · refine usualStyle_compose h.style.style_eq fun operand hmem => ?_
    rw [List.mem_singleton.1 hmem]
    exact h.style
  · intro leaf hleaf
    obtain ⟨operand, hmem, hleaf⟩ := mem_leaves_compose.1 hleaf
    rw [List.mem_singleton.1 hmem] at hleaf
    exact h.names leaf hleaf

/-- So do the conjunction and the disjunction of a list. -/
theorem Legible.composeAll {operands : List (Specification τ ν M)}
    {place : Place} {op : Operator} (hop : op = .and ∨ op = .or)
    {s : Specification τ ν M} (hmade : composeAll place op operands = .ok s)
    (h : ∀ operand ∈ operands, operand.Legible) : s.Legible := by
  have hparts : ∀ operand ∈ operands, operand.Built :=
    fun operand hmem => (h operand hmem).built
  have hbuilt : s.Built := by
    rcases hop with rfl | rfl
    · exact .allOf hparts hmade
    · exact .anyOf hparts hmade
  cases operands with
  | nil => simp [Specification.composeAll] at hmade
  | cons first rest =>
    obtain rfl := Except.ok.inj hmade
    refine ⟨hbuilt, ?_, fun leaf hleaf => ?_⟩
    · exact usualStyle_compose (h first List.mem_cons_self).style.style_eq
        fun operand hmem => (h operand hmem).style
    · obtain ⟨operand, hmem, hleaf⟩ := mem_leaves_compose.1 hleaf
      exact (h operand hmem).names leaf hleaf

/-- Equal statements say the same. -/
theorem Legible.holds_eq {M' : Type} {a : Specification τ ν M}
    {b : Specification τ ν M'} (ha : a.Legible) (hb : b.Legible)
    (h : a.statement = b.statement) (v : String → Bool) :
    a.holds v = b.holds v := by
  obtain ⟨c, hc⟩ := ha.built.wellFormed.exists_readAs ha.style ha.names
  obtain ⟨d, hd⟩ := hb.built.wellFormed.exists_readAs hb.style hb.names
  have htext : c.text ++ [] = d.text ++ [] := by
    rw [hc.text, hd.text, h]
  obtain ⟨rfl, -⟩ := c.text_inj d (by simp) (by simp) htext
  rw [← hc.holds, hd.holds]

/-! ## Evaluation -/

/-- On the model, every leaf answers, and as its statement is assigned. -/
def Answers (v : String → Bool) (s : Specification τ ν M) (m : M) : Prop :=
  ∀ leaf ∈ s.leaves, ∀ place, ∃ r, (leaf.evaluate place m).outcome = .ok r ∧
    r.satisfied = v leaf.statement

/-- An evaluation in which the leaves answer as assigned answers what the
specification says. -/
theorem evaluate_of_answers {v : String → Bool} {s : Specification τ ν M}
    (hformed : s.WellFormed) {m : M} (h : s.Answers v m) (place : Place) :
    ∃ r, (s.evaluate place m).outcome = .ok r ∧ r.satisfied = s.holds v := by
  induction s generalizing place with
  | atomic heading predicate branches => exact h _ List.mem_cons_self place
  | wrapper heading inner branches ih => exact h _ List.mem_cons_self place
  | computed heading function branches => exact h _ List.mem_cons_self place
  | quantified heading quantifier item branches ih =>
    exact h _ List.mem_cons_self place
  | composite heading op count operands ih =>
    have hanswers : ∀ i, (operands i).Answers v m := fun i leaf hleaf =>
      h leaf (List.mem_flatMap.2 ⟨i, List.mem_finRange i, hleaf⟩)
    choose results hresults hsatisfied using fun i =>
      ih i (hformed.2.2 i) (hanswers i) (place.child i)
    refine ⟨_, evaluate_composite_of_ok hresults hformed.1, ?_⟩
    rw [Result.applied_satisfied, List.map_ofFn, holds]
    exact congrArg (fun f => op.holds (List.ofFn f)) (funext hsatisfied)

/-- Two specifications with one statement are both satisfied or both
unsatisfied, whatever their leaves answer. -/
theorem satisfied_eq_of_statement {M' : Type} {a : Specification τ ν M}
    {b : Specification τ ν M'} (ha : a.Legible) (hb : b.Legible)
    (h : a.statement = b.statement) {v : String → Bool} {m : M} {m' : M'}
    (hm : a.Answers v m) (hm' : b.Answers v m') (place place' : Place) :
    ∃ r r', (a.evaluate place m).outcome = .ok r ∧
      (b.evaluate place' m').outcome = .ok r' ∧
      r.satisfied = r'.satisfied := by
  obtain ⟨r, hr, hsatisfied⟩ :=
    evaluate_of_answers ha.built.wellFormed hm place
  obtain ⟨r', hr', hsatisfied'⟩ :=
    evaluate_of_answers hb.built.wellFormed hm' place'
  refine ⟨r, r', hr, hr', ?_⟩
  rw [hsatisfied, hsatisfied', ha.holds_eq hb h v]

/-- A predicate about numbers, with the usual notation. -/
def probe (place : Place) (statement : String) (p : Nat → Bool) :
    Specification String Unit Nat :=
  .atomic ⟨place, statement, {}⟩ (fun n => pure (p n)) none

theorem legible_probe {statement : String}
    (hblank : Text.isBlank statement = false) (hname : IsName statement)
    (place : Place) (p : Nat → Bool) : (probe place statement p).Legible :=
  ⟨.atomic hblank _, rfl, fun leaf hleaf => by
    rw [List.mem_singleton.1 hleaf]
    exact hname⟩

/-- Whether a number is even. -/
def evenProbe : Specification String Unit Nat :=
  probe (.root 0) "even" fun n => n % 2 == 0

/-- Whether a number is small. -/
def smallProbe : Specification String Unit Nat :=
  probe (.root 1) "small" fun n => n < 10

/-- Whether a number is not zero. -/
def nonzeroProbe : Specification String Unit Nat :=
  negation (.root 3) (probe (.root 2) "zero" fun n => n == 0)

/-- Exclusive alternatives, built from the left. -/
def fromLeft : Specification String Unit Nat :=
  combine (.root 5) .xor (combine (.root 4) .xor evenProbe smallProbe)
    nonzeroProbe

/-- Exclusive alternatives, built from the right. -/
def fromRight : Specification String Unit Nat :=
  combine (.root 5) .xor evenProbe
    (combine (.root 4) .xor smallProbe nonzeroProbe)

/-- Six is even and small and not zero. -/
def saysOfSix (text : String) : Bool := text == "even" || text == "small"

theorem legible_fromLeft : fromLeft.Legible := by
  have hnonzero : nonzeroProbe.Legible :=
    .negation (legible_probe (by decide) (by decide) _ _) _
  exact .combine
    (.combine (legible_probe (by decide) (by decide) _ _)
      (legible_probe (by decide) (by decide) _ _) _ (by decide))
    hnonzero _ (by decide)

theorem legible_fromRight : fromRight.Legible := by
  have hnonzero : nonzeroProbe.Legible :=
    .negation (legible_probe (by decide) (by decide) _ _) _
  exact .combine (legible_probe (by decide) (by decide) _ _)
    (.combine (legible_probe (by decide) (by decide) _ _) hnonzero _
      (by decide)) _ (by decide)

theorem answers_fromLeft : fromLeft.Answers saysOfSix 6 := by
  intro leaf hleaf place
  have hleaves : fromLeft.leaves =
      [evenProbe, smallProbe, probe (.root 2) "zero" fun n => n == 0] := rfl
  simp only [hleaves, List.mem_cons, List.not_mem_nil, or_false] at hleaf
  rcases hleaf with rfl | rfl | rfl
  · exact ⟨_, rfl, rfl⟩
  · exact ⟨_, rfl, rfl⟩
  · exact ⟨_, rfl, rfl⟩

/-- Both are written "even ^ small ^ !zero". -/
theorem satisfied_eq_of_statement_xor :
    fromLeft.Legible ∧ fromRight.Legible ∧
      fromLeft.statement = fromRight.statement ∧
      fromLeft.Answers saysOfSix 6 ∧ fromRight.Answers saysOfSix 6 ∧
      ∃ r r', (fromLeft.evaluate (.root 6) 6).outcome = .ok r ∧
        (fromRight.evaluate (.root 7) 6).outcome = .ok r' ∧
        r.satisfied = r'.satisfied := by
  have hsame : fromLeft.statement = fromRight.statement := by decide
  have hright : fromRight.Answers saysOfSix 6 := answers_fromLeft
  exact ⟨legible_fromLeft, legible_fromRight, hsame, answers_fromLeft, hright,
    satisfied_eq_of_statement legible_fromLeft legible_fromRight hsame
      answers_fromLeft hright _ _⟩

end Specification

end Rationale
