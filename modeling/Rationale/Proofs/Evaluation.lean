import Mathlib.Data.List.FinRange
import Rationale.Proofs.Causality
import Rationale.Specification.Evaluation

/-!
# Successful evaluations

When an evaluation succeeds, and with which result.  There are three groups.

* Results.  `Result.applied_eq` says what the result of an operator holds
  in terms of the operands that it looks at, and `Result.declared_eq_ok`
  that causes within reach are never refused.
* Declarations.  A factory over a snapshot is a factory that takes the
  snapshot for its model, and `declareBy` is what all specifications with
  factories do: values are raised under a heading and made a declaration.
* Evaluations.  There is one lemma for each kind of specification.  Each
  says that the evaluation succeeds exactly when its parts do, and builds
  the result from theirs.
-/

namespace Rationale

/-! ## Results -/

namespace Result

variable {τ : Type}

/-- The operands that explain an operator. -/
def causesAmong (op : Operator) (operands : List (Result τ)) :
    List (Result τ) :=
  (op.causes (operands.map satisfied)).filterMap fun i => operands[i]?

/-- The operands that an operator looks at. -/
def reached (op : Operator) (operands : List (Result τ)) : List (Result τ) :=
  upTo (fun r => op.settles r.satisfied) operands

theorem reached_isPrefix (op : Operator) (operands : List (Result τ)) :
    reached op operands <+: operands := upTo_isPrefix ..

theorem reached_subset (op : Operator) (operands : List (Result τ)) :
    reached op operands ⊆ operands := (reached_isPrefix op operands).subset

theorem reached_map_satisfied (op : Operator) (operands : List (Result τ)) :
    (reached op operands).map satisfied =
      upTo op.settles (operands.map satisfied) :=
  (upTo_map satisfied op.settles operands).symm

/-- The result of an operator rests on the operands that it looks at. -/
theorem applied_eq (place : Place) (op : Operator)
    (operands : List (Result τ)) (statement : String) (style : Notation) :
    applied place op operands statement style =
      .mk place
        { Declaration.forwarding statement style with
          satisfied := op.holds (operands.map satisfied)
          kind := .applied op }
        (reached op operands) (causesAmong op (reached op operands)) := by
  obtain ⟨rest, hrest⟩ := reached_isPrefix op operands
  have htake : operands.take (reached op operands).length =
      reached op operands := by
    rw [← congrArg (List.take _) hrest, List.take_left]
  have hlength : (upTo op.settles (operands.map satisfied)).length =
      (reached op operands).length := by
    rw [← reached_map_satisfied, List.length_map]
  simp only [applied, determine_eq, ofPositions, hlength, htake, causesAmong,
    reached_map_satisfied]

/-- The label says nothing about the place. -/
theorem applied_label (place : Place) (op : Operator)
    (operands : List (Result τ)) (statement : String) (style : Notation) :
    (applied place op operands statement style).label =
      { Declaration.forwarding statement style with
        satisfied := op.holds (operands.map satisfied)
        kind := .applied op } := by
  rw [applied_eq]
  rfl

theorem applied_operands (place : Place) (op : Operator)
    (operands : List (Result τ)) (statement : String) (style : Notation) :
    (applied place op operands statement style).operands =
      reached op operands := by
  rw [applied_eq]
  rfl

/-- An operator that nothing settles looks at all operands. -/
theorem reached_eq_self {op : Operator} (hop : op.settledBy = none)
    (rs : List (Result τ)) : reached op rs = rs := by
  rw [reached]
  apply upTo_eq_self
  intro r _
  simp [Operator.settles, hop]

/-- Such an operator keeps all operands. -/
theorem operands_applied {op : Operator} (hop : op.settledBy = none)
    (place : Place) (rs : List (Result τ)) (statement : String)
    (style : Notation) :
    (applied place op rs statement style).operands = rs := by
  rw [applied_operands, reached_eq_self hop]

theorem applied_causes (place : Place) (op : Operator)
    (operands : List (Result τ)) (statement : String) (style : Notation) :
    (applied place op operands statement style).causes =
      causesAmong op (reached op operands) := by
  rw [applied_eq]
  rfl

@[simp]
theorem applied_satisfied (place : Place) (op : Operator)
    (operands : List (Result τ)) (statement : String) (style : Notation) :
    (applied place op operands statement style).satisfied =
      op.holds (operands.map satisfied) := by
  rw [satisfied, applied_label]

/-- The operands that an operator does not look at may be left out. -/
theorem applied_reached (place : Place) (op : Operator)
    (operands : List (Result τ)) (statement : String) (style : Notation) :
    applied place op (reached op operands) statement style =
      applied place op operands statement style := by
  have hreached : reached op (reached op operands) = reached op operands :=
    upTo_upTo ..
  rw [applied_eq, applied_eq, hreached, reached_map_satisfied, op.holds_upTo]

/-- A cause that the outcomes name is a cause of the result. -/
theorem mem_causes_applied {place : Place} {op : Operator}
    {operands : List (Result τ)} {statement : String} {style : Notation}
    {i : Nat} {r : Result τ}
    (hi : i ∈ (determine op (operands.map satisfied)).causes)
    (hr : operands[i]? = some r) :
    r ∈ (applied place op operands statement style).causes := by
  rw [determine_eq, ← reached_map_satisfied] at hi
  rw [applied_causes]
  refine List.mem_filterMap.2 ⟨i, hi, ?_⟩
  have hlt : i < (reached op operands).length := by
    simpa using Operator.lt_of_mem_causes hi
  obtain ⟨rest, hrest⟩ := reached_isPrefix op operands
  rw [← hrest, List.getElem?_append_left hlt] at hr
  exact hr

/-- Every cause of the result of an operator is one of its operands. -/
theorem mem_of_mem_causes_applied {place : Place} {op : Operator}
    {operands : List (Result τ)} {statement : String} {style : Notation}
    {r : Result τ}
    (h : r ∈ (applied place op operands statement style).causes) :
    r ∈ operands := by
  rw [applied_causes] at h
  obtain ⟨i, -, hi⟩ := List.mem_filterMap.1 h
  exact reached_subset op operands (List.mem_of_getElem? hi)

/-- Causes that are among the underlying results are not refused. -/
theorem declared_eq_ok {underlying : List (Result τ)} {causes : List Nat}
    (h : ∀ i ∈ causes, i < underlying.length) (place : Place)
    (satisfied : Bool) (declaration : Declaration τ) :
    declared place satisfied declaration underlying causes =
      .ok (ofPositions place { declaration with satisfied, kind := .declared }
        underlying causes) := by
  have hnone : causes.find? (fun i => underlying.length ≤ i) = none := by
    refine List.find?_eq_none.2 fun i hi => ?_
    have := h i hi
    simp only [decide_eq_true_eq]
    omega
  rw [declared, hnone]

theorem fromOperator_eq_ok_iff {place : Place} {op : Operator}
    {operands : List (Result τ)} {statement : String} {style : Notation}
    {r : Result τ} :
    fromOperator place op operands statement style = .ok r ↔
      op.accepts operands.length ∧
        applied place op operands statement style = r := by
  rw [fromOperator]
  split
  · rename_i haccepts
    simp [haccepts]
  · rename_i haccepts
    simp [haccepts]

theorem declared_eq_ok_iff {place : Place} {satisfied : Bool}
    {declaration : Declaration τ} {underlying : List (Result τ)}
    {causes : List Nat} {r : Result τ} :
    declared place satisfied declaration underlying causes = .ok r ↔
      (∀ i ∈ causes, i < underlying.length) ∧
        ofPositions place { declaration with satisfied, kind := .declared }
          underlying causes = r := by
  constructor
  · intro h
    rw [declared] at h
    split at h
    · cases h
    · rename_i hnone
      refine ⟨fun i hi => ?_, Except.ok.inj h⟩
      have hin := List.find?_eq_none.1 hnone i hi
      simpa using hin
  · rintro ⟨hcauses, rfl⟩
    exact declared_eq_ok hcauses ..

end Result

/-! ## Declarations -/

namespace Traced

variable {ν α : Type}

@[simp]
theorem raisedBy_eq_ok_iff {x : Traced ν Raised α} {statement : String}
    {role : Role} {a : α} :
    (x.raisedBy statement role).outcome = .ok a ↔ x.outcome = .ok a := by
  rw [raisedBy, mapError]
  cases x.outcome <;> simp [Except.mapError]

theorem raisedBy_eq_error_iff {x : Traced ν Raised α} {statement : String}
    {role : Role} {e : Error} :
    (x.raisedBy statement role).outcome = .error e ↔
      ∃ raised, x.outcome = .error raised ∧
        Error.ofRaised statement role raised = e := by
  rw [raisedBy, mapError]
  cases x.outcome <;> simp [Except.mapError]

@[simp]
theorem raisedBy_notes (x : Traced ν Raised α) (statement : String)
    (role : Role) : (x.raisedBy statement role).notes = x.notes := rfl

/-- What is made of an answer does not show in a report. -/
theorem raisedBy_bind_pure {β : Type} (x : Traced ν Raised α) (f : α → β)
    (statement : String) (role : Role) :
    (x >>= fun a => pure (f a)).raisedBy statement role =
      x.raisedBy statement role >>= fun a => pure (f a) := by
  obtain ⟨notes, outcome⟩ := x
  cases outcome <;> rfl

end Traced

namespace SnapshotFactory

variable {τ ν I : Type}

/-- A factory over a snapshot, with the snapshot for its model. -/
def toFactory : SnapshotFactory τ ν I → Factory τ ν (Snapshot τ I)
  | .constant value => .constant value
  | .constants values => .constants values
  | .snapshot f => .model f
  | .snapshotMany f => .modelMany f

theorem resolve_toFactory (factory : SnapshotFactory τ ν I)
    (s : Snapshot τ I) :
    factory.toFactory.resolve s none = factory.resolve s := by
  cases factory <;> rfl

theorem isSingleValued_toFactory (factory : SnapshotFactory τ ν I) :
    factory.toFactory.isSingleValued = factory.isSingleValued := by
  cases factory <;> rfl

theorem needsUnderlying_toFactory (factory : SnapshotFactory τ ν I) :
    factory.toFactory.needsUnderlying = false := by
  cases factory <;> rfl

end SnapshotFactory

namespace Specification

variable {τ ν : Type} {M I : Type}

/-- Raises the values of the branch taken under a heading and makes a
declaration of them.  Without factories there is a declaration without
values. -/
def declareBy (heading : Heading) (satisfied : Bool)
    (making : Option (Traced ν Raised (List τ)))
    (make : List τ → Declaration τ) (bare : Declaration τ) :
    Traced ν Error (Declaration τ) :=
  match making with
  | some x =>
    x.raisedBy heading.statement (Role.ofOutcome satisfied) >>=
      fun values => pure (make values)
  | none => pure bare

/-- What a declaration is made of. -/
theorem exists_of_declareBy {heading : Heading} {satisfied : Bool}
    {making : Option (Traced ν Raised (List τ))}
    {make : List τ → Declaration τ} {bare declaration : Declaration τ}
    (h : (declareBy heading satisfied making make bare).outcome =
      .ok declaration) :
    making = none ∧ declaration = bare ∨
      ∃ x values, making = some x ∧ x.outcome = .ok values ∧
        declaration = make values := by
  cases making with
  | none => exact Or.inl ⟨rfl, (Except.ok.inj h).symm⟩
  | some x =>
    obtain ⟨values, hvalues, h⟩ := Traced.bind_eq_ok_iff.1 h
    exact Or.inr ⟨x, values, rfl, Traced.raisedBy_eq_ok_iff.1 hvalues,
      (Except.ok.inj h).symm⟩

/-- A declaration is made if the values are. -/
theorem exists_declareBy_eq_ok (heading : Heading) (satisfied : Bool)
    {making : Option (Traced ν Raised (List τ))}
    (make : List τ → Declaration τ) (bare : Declaration τ)
    (h : ∀ x ∈ making, ∃ values, x.outcome = .ok values) :
    ∃ declaration, (declareBy heading satisfied making make bare).outcome =
      .ok declaration := by
  cases making with
  | none => exact ⟨bare, rfl⟩
  | some x =>
    obtain ⟨values, hvalues⟩ := h x rfl
    exact ⟨make values, Traced.bind_eq_ok_iff.2
      ⟨values, Traced.raisedBy_eq_ok_iff.2 hvalues, rfl⟩⟩

variable [Metadata τ]

/-- Predicates and wrappers declare by their factories.  A predicate falls
back on its statement where there is no value. -/
theorem declare_eq (heading : Heading)
    (branches : Option (Branches (Factory τ ν M))) (m : M) (satisfied : Bool)
    (underlying : Option (Result τ)) :
    declare heading branches m satisfied underlying =
      declareBy heading satisfied
        (branches.map fun pair =>
          (pair.taken satisfied).resolve m underlying)
        (fun values =>
          if values.isEmpty && underlying.isNone then
            .fallback heading.statement heading.style satisfied
          else .ofValues heading.statement values heading.style satisfied)
        (match underlying with
          | none => .fallback heading.statement heading.style satisfied
          | some _ => .forwarding heading.statement heading.style) := by
  cases branches with
  | none => cases underlying <;> rfl
  | some pair =>
    refine congrArg (_ >>= ·) (funext fun values => ?_)
    exact (apply_ite pure _ _ _).symm

/-- Quantifiers declare by their factories, also where there is no value. -/
theorem declareSnapshot_eq (heading : Heading)
    (branches : Option (Branches (SnapshotFactory τ ν I))) (satisfied : Bool)
    (snapshot : Snapshot τ I) :
    declareSnapshot heading branches satisfied snapshot =
      declareBy heading satisfied
        (branches.map fun pair => (pair.taken satisfied).resolve snapshot)
        (fun values =>
          .ofValues heading.statement values heading.style satisfied)
        (.fallback heading.statement heading.style satisfied) := by
  cases branches <;> rfl

end Specification

/-! ## Evaluations -/

namespace Traced

variable {ν α : Type}

@[simp]
theorem ofExcept_outcome {ε : Type} (x : Except ε α) :
    (ofExcept x : Traced ν ε α).outcome = x := rfl

@[simp]
theorem ofExcept_notes {ε : Type} (x : Except ε α) :
    (ofExcept x : Traced ν ε α).notes = [] := rfl

/-- An operator takes the results of a run over operands that it takes. -/
theorem accepts_of_runUntil {τ : Type} {op : Operator} {count : Nat}
    {run : Fin count → Traced ν Error (Result τ)} {results : List (Result τ)}
    (haccepts : op.accepts count)
    (hrun : (runUntil (fun r => op.settledBy = some (Result.satisfied r))
      run (List.finRange count)).outcome = .ok results) :
    op.accepts results.length := by
  have hforall := (runUntil_eq_ok_iff ..).1 hrun
  rw [← hforall.length_eq]
  by_cases hshort : op.settledBy = none
  · rw [upTo_eq_self_of_reached, List.length_finRange]
    · exact haccepts
    · intro i hi
      obtain ⟨r, hr⟩ := exists_of_runUntil_eq_ok _ _ hrun hi
      rw [ends_of_ok hr, hshort]
      rfl
  · have hne : List.finRange count ≠ [] := by
      have hpos := Operator.pos_of_accepts haccepts
      rw [← List.length_pos_iff, List.length_finRange]
      exact hpos
    cases op with
    | and | or | xor | not => exact absurd rfl hshort
    | andAlso | orElse => exact decide_eq_true (length_upTo_pos _ hne)

end Traced

namespace Specification

variable {τ ν : Type} [Metadata τ] {M I : Type}

/-- The result of a wrapper over the result of what it wraps. -/
def wrapped (place : Place) (inner : Result τ) (declaration : Declaration τ) :
    Result τ :=
  .mk place
    { declaration with satisfied := inner.satisfied, kind := .declared }
    [inner] [inner]

theorem wrap_eq (heading : Heading)
    (branches : Option (Branches (Factory τ ν M))) (place : Place) (m : M)
    (inner : Result τ) :
    wrap heading branches place m inner =
      declare heading branches m inner.satisfied (some inner) >>=
        fun declaration => pure (wrapped place inner declaration) := by
  have hcauses : ∀ i ∈ [0], i < [inner].length := by simp
  simp only [wrap, Result.declared_eq_ok hcauses]
  rfl

/-- The result of a quantifier over the results of the items. -/
def judged (place : Place) (quantifier : Quantifier)
    (results : List (Result τ)) (declaration : Declaration τ) : Result τ :=
  let selection := quantifier.select (results.map Result.satisfied)
  Result.ofPositions place
    { declaration with satisfied := selection.satisfied, kind := .declared }
    results selection.causes

omit [Metadata τ] in
/-- A quantifier is explained by its items. -/
theorem lt_of_mem_select {quantifier : Quantifier} {results : List (Result τ)} :
    ∀ i ∈ (quantifier.select (results.map Result.satisfied)).causes,
      i < results.length := by
  intro i hi
  simpa using Quantifier.lt_of_mem_causes hi

variable {heading : Heading} {place : Place} {r : Result τ}

theorem evaluate_atomic_eq_ok_iff {predicate : M → Traced ν Raised Bool}
    {branches : Option (Branches (Factory τ ν M))} {m : M} :
    ((atomic heading predicate branches).evaluate place m).outcome = .ok r ↔
      ∃ satisfied, (predicate m).outcome = .ok satisfied ∧
        ∃ declaration,
          (declare heading branches m satisfied none).outcome =
            .ok declaration ∧
          Result.atomic place satisfied declaration = r := by
  simp only [evaluate, Traced.bind_eq_ok_iff, Traced.raisedBy_eq_ok_iff,
    Traced.pure_outcome, Except.ok.injEq]

theorem evaluate_wrapper_eq_ok_iff {inner : Specification τ ν M}
    {branches : Option (Branches (Factory τ ν M))} {m : M} :
    ((wrapper heading inner branches).evaluate place m).outcome = .ok r ↔
      ∃ result, (inner.evaluate place m).outcome = .ok result ∧
        ∃ declaration,
          (declare heading branches m result.satisfied (some result)).outcome =
            .ok declaration ∧
          wrapped place result declaration = r := by
  simp only [evaluate, wrap_eq, Traced.bind_eq_ok_iff, Traced.pure_outcome,
    Except.ok.injEq]

theorem evaluate_computed_eq_ok_iff
    {function : Place → M → Traced ν Raised (Result τ)}
    {branches : Option (Branches (Factory τ ν M))} {m : M} :
    ((computed heading function branches).evaluate place m).outcome = .ok r ↔
      ∃ result, (function place m).outcome = .ok result ∧
        ∃ declaration,
          (declare heading branches m result.satisfied (some result)).outcome =
            .ok declaration ∧
          wrapped place result declaration = r := by
  simp only [evaluate, wrap_eq, Traced.bind_eq_ok_iff,
    Traced.raisedBy_eq_ok_iff, Traced.pure_outcome, Except.ok.injEq]

/-- A composite succeeds when the operands that are reached do, unless
there are too few or too many of them. -/
theorem evaluate_composite_eq_ok_iff {op : Operator} {count : Nat}
    {operands : Fin count → Specification τ ν M} {m : M} :
    ((composite heading op count operands).evaluate place m).outcome = .ok r ↔
      ∃ results,
        (Traced.runUntil (fun r : Result τ => op.settles r.satisfied)
          (fun i => (operands i).evaluate (place.child i) m)
          (List.finRange count)).outcome = .ok results ∧
        op.accepts results.length ∧
        Result.applied place op results heading.statement heading.style = r := by
  simp only [evaluate, Traced.bind_eq_ok_iff, Traced.ofExcept_outcome,
    Result.fromOperator_eq_ok_iff, Operator.settles]

/-- A composite of operands that all succeed.  That it leaves out some of
them does not show in its result. -/
theorem evaluate_composite_of_ok {op : Operator} {count : Nat}
    {operands : Fin count → Specification τ ν M} {m : M}
    {results : Fin count → Result τ}
    (h : ∀ i, ((operands i).evaluate (place.child i) m).outcome =
      .ok (results i))
    (haccepts : op.accepts count) :
    ((composite heading op count operands).evaluate place m).outcome =
      .ok (Result.applied place op (List.ofFn results) heading.statement
        heading.style) := by
  have hreached : (upTo (fun i => op.settles (results i).satisfied)
      (List.finRange count)).map results =
        Result.reached op (List.ofFn results) := by
    rw [List.ofFn_eq_map, Result.reached, upTo_map]
    rfl
  refine evaluate_composite_eq_ok_iff.2
    ⟨Result.reached op (List.ofFn results), ?_, ?_, ?_⟩
  · rw [← hreached]
    exact Traced.runUntil_of_ok _ _ fun i _ => h i
  · have hlength := congrArg List.length
      (Result.reached_map_satisfied op (List.ofFn results))
    rw [List.length_map] at hlength
    rw [hlength]
    exact Operator.accepts_upTo (by simpa using haccepts)
  · exact Result.applied_reached ..

/-- A quantifier runs its items and then declares. -/
theorem evaluate_quantified {quantifier : Quantifier}
    {item : Specification τ ν I}
    {branches : Option (Branches (SnapshotFactory τ ν I))} {models : List I} :
    (quantified heading quantifier item branches).evaluate place models =
      Traced.runAll
        (fun entry : I × Nat => item.evaluate (place.child entry.2) entry.1)
        models.zipIdx >>= fun results =>
      declareSnapshot heading branches
        (quantifier.select (results.map Result.satisfied)).satisfied
        ⟨models, results,
          (quantifier.select (results.map Result.satisfied)).causes⟩ >>=
      fun declaration => pure (judged place quantifier results declaration) := by
  simp only [evaluate, Result.declared_eq_ok lt_of_mem_select]
  rfl

theorem evaluate_quantified_eq_ok_iff {quantifier : Quantifier}
    {item : Specification τ ν I}
    {branches : Option (Branches (SnapshotFactory τ ν I))} {models : List I} :
    ((quantified heading quantifier item branches).evaluate place
        models).outcome = .ok r ↔
      ∃ results,
        (Traced.runAll
          (fun entry : I × Nat => item.evaluate (place.child entry.2) entry.1)
          models.zipIdx).outcome = .ok results ∧
        ∃ declaration,
          (declareSnapshot heading branches
            (quantifier.select (results.map Result.satisfied)).satisfied
            ⟨models, results,
              (quantifier.select
                (results.map Result.satisfied)).causes⟩).outcome =
            .ok declaration ∧
          judged place quantifier results declaration = r := by
  simp only [evaluate_quantified, Traced.bind_eq_ok_iff, Traced.pure_outcome,
    Except.ok.injEq]

end Specification

end Rationale
