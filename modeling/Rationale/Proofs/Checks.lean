import Rationale.Proofs.Attribution
import Rationale.Proofs.Determined

/-!
# Checks of an evaluation

An evaluation can fail in its callbacks, and it checks three things by
itself: a factory that reads an underlying result is given one, an operator
is given as many results as it takes, and causes are among the results that
something is declared over.  There are three groups.

* Checks.  `Check` is one of the three, and `Check.Passes` says of the
  function that makes it that it does not refuse.
* The checks of an evaluation.  `Specification.checks` lists those that a
  specification makes on a model, by recursion on the specification.
* No check fails.  `evaluate_eq_ok_iff_checks` says that an evaluation
  fails only in a callback or in a check that is listed, and
  `WellFormed.passes` that every check passes in a specification that can
  be built.
-/

namespace Rationale

variable {τ ν : Type} {M : Type}

/-! ## Checks -/

/-- Something that an evaluation checks by itself. -/
inductive Check (τ ν : Type) : Type 1 where
  /-- A factory makes values, from a result if it reads one. -/
  | values {M : Type} (factory : Factory τ ν M) (m : M)
      (underlying : Option (Result τ))
  /-- An operator is applied to results. -/
  | operator (place : Place) (op : Operator) (operands : List (Result τ))
      (statement : String) (style : Notation)
  /-- Something is declared over results. -/
  | declared (place : Place) (satisfied : Bool) (declaration : Declaration τ)
      (underlying : List (Result τ)) (causes : List Nat)

namespace Check

/-- Nothing is refused.  A factory fails only if its callback does, and a
result is made that has one cause for each position that explains it. -/
def Passes : Check τ ν → Prop
  | .values factory m underlying =>
    ∀ callback raised, (factory.resolve m underlying).outcome = .error raised →
      ∃ call ∈ factory.calls callback m underlying,
        call.failure = some raised
  | .operator place op operands statement style =>
    ∃ r, Result.fromOperator place op operands statement style = .ok r ∧
      r.CausedAt (determine op (operands.map Result.satisfied)).causes
  | .declared place satisfied declaration underlying causes =>
    ∃ r, Result.declared place satisfied declaration underlying causes =
        .ok r ∧ r.CausedAt causes

end Check

namespace Traced

variable {α β : Type}

/-- What is made of an answer does not fail. -/
theorem outcome_eq_error_of_bind_pure {x : Traced ν Raised α} {f : α → β}
    {raised : Raised}
    (h : (x >>= fun a => pure (f a)).outcome = .error raised) :
    x.outcome = .error raised := by
  cases hx : x.outcome with
  | ok a =>
    rw [bind_of_ok hx] at h
    cases h
  | error raised' =>
    rw [bind_of_error hx] at h
    cases h
    rfl

/-- A call fails with what the callback raised. -/
theorem failure_call {x : Traced ν Raised α} {raised : Raised}
    (h : x.outcome = .error raised) (callback : Callback) :
    (x.call callback).failure = some raised := by
  rw [call, h]

end Traced

namespace Factory

variable {factory : Factory τ ν M} {m : M} {underlying : Option (Result τ)}

/-- Without the result that it reads, a factory calls nothing and fails. -/
theorem resolve_none (h : factory.needsUnderlying) (callback : Callback) :
    factory.resolve m none =
        .fail (.plain "factory requires an underlying result") ∧
      factory.calls callback m none = [] := by
  cases factory with
  | constant _ | constants _ | model _ | modelMany _ => cases h
  | result _ | resultMany _ => exact ⟨rfl, rfl⟩

/-- A factory that is given what it reads fails only with what its callback
raised. -/
theorem exists_call_of_error (h : factory.needsUnderlying → underlying.isSome)
    (callback : Callback) {raised : Raised}
    (hraised : (factory.resolve m underlying).outcome = .error raised) :
    ∃ call ∈ factory.calls callback m underlying,
      call.failure = some raised := by
  cases factory with
  | constant value => cases hraised
  | constants values => cases hraised
  | model f =>
    have hf := Traced.outcome_eq_error_of_bind_pure hraised
    exact ⟨_, List.mem_singleton_self _, Traced.failure_call hf callback⟩
  | modelMany f =>
    exact ⟨_, List.mem_singleton_self _,
      Traced.failure_call hraised callback⟩
  | result f =>
    obtain ⟨r, rfl⟩ := Option.isSome_iff_exists.1 (h rfl)
    have hf := Traced.outcome_eq_error_of_bind_pure hraised
    exact ⟨_, List.mem_singleton_self _, Traced.failure_call hf callback⟩
  | resultMany f =>
    obtain ⟨r, rfl⟩ := Option.isSome_iff_exists.1 (h rfl)
    exact ⟨_, List.mem_singleton_self _,
      Traced.failure_call hraised callback⟩

end Factory

namespace Check

/-- The first check is that of the result that a factory reads. -/
theorem passes_values_iff {factory : Factory τ ν M} {m : M}
    {underlying : Option (Result τ)} :
    (values factory m underlying).Passes ↔
      (factory.needsUnderlying → underlying.isSome) := by
  rw [Passes]
  constructor
  · intro h hneeds
    cases underlying with
    | some r => rfl
    | none =>
      have callback : Callback := ⟨.root 0, "", .predicate⟩
      obtain ⟨hresolve, hcalls⟩ := Factory.resolve_none (m := m) hneeds callback
      obtain ⟨call, hmem, -⟩ := h callback _ (congrArg Traced.outcome hresolve)
      rw [hcalls] at hmem
      cases hmem
  · intro h callback raised hraised
    exact Factory.exists_call_of_error h callback hraised

theorem passes_operator_iff {place : Place} {op : Operator}
    {operands : List (Result τ)} {statement : String} {style : Notation} :
    (operator (ν := ν) place op operands statement style).Passes ↔
      op.accepts operands.length := by
  rw [Passes]
  constructor
  · rintro ⟨r, hr, -⟩
    exact (Result.fromOperator_eq_ok_iff.1 hr).1
  · intro haccepts
    exact ⟨_, Result.fromOperator_eq_ok_iff.2 ⟨haccepts, rfl⟩,
      Result.causedAt_applied ..⟩

theorem passes_declared_iff {place : Place} {satisfied : Bool}
    {declaration : Declaration τ} {underlying : List (Result τ)}
    {causes : List Nat} :
    (declared (ν := ν) place satisfied declaration underlying causes).Passes ↔
      ∀ i ∈ causes, i < underlying.length := by
  rw [Passes]
  constructor
  · rintro ⟨r, hr, -⟩
    exact (Result.declared_eq_ok_iff.1 hr).1
  · intro hcauses
    have hmade := Result.declared_eq_ok hcauses place satisfied declaration
    exact ⟨_, hmade, Result.causedAt_of_declared hmade⟩

end Check

/-! ## The checks of an evaluation -/

/-- What follows an answer.  Nothing follows a failure. -/
def afterOk {ε α : Type} {β : Type 1} (x : Except ε α) (f : α → List β) :
    List β :=
  match x with
  | .ok a => f a
  | .error _ => []

theorem mem_afterOk {ε α : Type} {β : Type 1} {x : Except ε α}
    {f : α → List β} {b : β} : b ∈ afterOk x f ↔ ∃ a, x = .ok a ∧ b ∈ f a := by
  cases x <;> simp [afterOk]

namespace Specification

/-- The check of the factory of the branch taken. -/
def branchChecks (branches : Option (Branches (Factory τ ν M))) (m : M)
    (satisfied : Bool) (underlying : Option (Result τ)) : List (Check τ ν) :=
  match branches with
  | none => []
  | some pair => [.values (pair.taken satisfied) m underlying]

variable [Metadata τ]

/-- The checks of a wrapper around a result. -/
def wrapChecks (heading : Heading)
    (branches : Option (Branches (Factory τ ν M))) (place : Place) (m : M)
    (inner : Result τ) : List (Check τ ν) :=
  branchChecks branches m inner.satisfied (some inner) ++
    afterOk (declare heading branches m inner.satisfied (some inner)).outcome
      fun declaration =>
        [.declared place inner.satisfied declaration [inner] [0]]

/-- The checks that a specification makes on a model, in order. -/
def checks : {M : Type} → Specification τ ν M → Place → M → List (Check τ ν)
  | _, .atomic _ predicate branches, _, m =>
    afterOk (predicate m).outcome fun satisfied =>
      branchChecks branches m satisfied none
  | _, .wrapper heading inner branches, place, m =>
    inner.checks place m ++
      afterOk (inner.evaluate place m).outcome
        (wrapChecks heading branches place m)
  | _, .computed heading function branches, place, m =>
    afterOk (function place m).outcome (wrapChecks heading branches place m)
  | _, .composite heading op count operands, place, m =>
    ((upTo
      (fun i =>
        op.stopsAfter ((operands i).evaluate (place.child i) m).outcome)
      (List.finRange count)).flatMap fun i =>
        (operands i).checks (place.child i) m) ++
      afterOk
        (Traced.runUntil (fun r => op.settledBy = some (Result.satisfied r))
          (fun i => (operands i).evaluate (place.child i) m)
          (List.finRange count)).outcome
        fun results =>
          [.operator place op results heading.statement heading.style]
  | _, .quantified heading quantifier item branches, place, models =>
    ((upTo
      (fun entry =>
        !(item.evaluate (place.child entry.2) entry.1).outcome.isOk)
      models.zipIdx).flatMap fun entry =>
        item.checks (place.child entry.2) entry.1) ++
      afterOk (itemResults item place models) fun results =>
        let selection := quantifier.select (results.map Result.satisfied)
        afterOk
          (declareSnapshot heading branches selection.satisfied
            ⟨models, results, selection.causes⟩).outcome
          fun declaration =>
            [.declared place selection.satisfied declaration results
              selection.causes]

/-- A declaration is refused only by the check of its factory. -/
theorem tells_declare_checks (position : Place) (heading : Heading)
    (branches : Option (Branches (Factory τ ν M))) (m : M) (satisfied : Bool)
    (underlying : Option (Result τ)) :
    (declare heading (markedBranches position heading branches) m satisfied
      underlying).Tells
        (∃ check ∈ branchChecks branches m satisfied underlying,
          ¬check.Passes) := by
  refine (tells_declare ..).mono ?_
  rintro ⟨pair, hpair, hneeds, rfl⟩
  obtain rfl := Option.mem_def.1 hpair
  refine ⟨_, List.mem_singleton_self _, fun hpasses => ?_⟩
  have hsome := Check.passes_values_iff.1 hpasses hneeds
  cases hsome

/-- Nothing but its callbacks and the checks that are listed can make an
evaluation fail. -/
theorem tells_checks (s : Specification τ ν M) (position place : Place)
    (m : M) :
    ((s.marked position).evaluate place m).Tells
      (∃ check ∈ s.checks place m, ¬check.Passes) := by
  induction s generalizing position place with
  | atomic heading predicate branches =>
    refine Traced.Tells.bind (Traced.tells_marked _
      ⟨position, heading.statement, .predicate⟩) fun satisfied hm => ?_
    have hm : (predicate m).outcome = .ok satisfied :=
      Traced.raisedBy_eq_ok_iff.1 hm
    refine Traced.Tells.bind ?_ fun _ _ => Traced.tells_pure _
    refine (tells_declare_checks ..).mono ?_
    rintro ⟨check, hmem, hcheck⟩
    exact ⟨check, mem_afterOk.2 ⟨satisfied, hm, hmem⟩, hcheck⟩
  | wrapper heading inner branches ih =>
    refine Traced.Tells.bind ?_ fun result _ => tells_wrap ..
    refine (ih _ place m).mono ?_
    rintro ⟨check, hmem, hcheck⟩
    exact ⟨check, List.mem_append_left _ hmem, hcheck⟩
  | computed heading function branches =>
    exact Traced.Tells.bind (Traced.tells_marked _
      ⟨position, heading.statement, .predicate⟩) fun result _ => tells_wrap ..
  | composite heading op count operands ih =>
    refine Traced.Tells.bind (Traced.Tells.runUntil fun i hi => ?_) ?_
    · simp only [← stopsAfter_eq_ends, (refines_evaluate _ _ _ _).1] at hi
      refine (ih i (position.child i) (place.child i) m).mono ?_
      rintro ⟨check, hmem, hcheck⟩
      exact ⟨check, List.mem_append_left _
        (List.mem_flatMap.2 ⟨i, hi, hmem⟩), hcheck⟩
    · intro results hresults
      rw [Result.fromOperator]
      split
      · exact Traced.tells_pure _
      · rename_i hrefused
        have hrun := (Traced.Refines.runUntil (fun i =>
          refines_evaluate (operands i) (position.child i) (place.child i) m)
          (fun r => op.settledBy = some r.satisfied)
          (List.finRange count)).1.symm.trans hresults
        refine Traced.tells_fail ⟨_, List.mem_append_right _ (mem_afterOk.2
          ⟨results, hrun, List.mem_singleton_self _⟩), ?_⟩ _
        exact mt Check.passes_operator_iff.1 hrefused
  | quantified heading quantifier item branches ih =>
    rw [marked, evaluate_quantified]
    refine Traced.Tells.bind (Traced.Tells.runUntil fun entry hi => ?_) ?_
    · simp only [Traced.ends_runAll, (refines_evaluate _ _ _ _).1] at hi
      refine (ih (position.child 0) (place.child entry.2) entry.1).mono ?_
      rintro ⟨check, hmem, hcheck⟩
      exact ⟨check, List.mem_append_left _
        (List.mem_flatMap.2 ⟨entry, hi, hmem⟩), hcheck⟩
    · intro results _
      exact (tells_declareSnapshot ..).bind fun _ _ => Traced.tells_pure _

/-! ## No check fails -/

omit [Metadata τ] in
theorem passes_of_mem_branchChecks
    {branches : Option (Branches (Factory τ ν M))} {m : M} {satisfied : Bool}
    {underlying : Option (Result τ)} {check : Check τ ν}
    (h : ∀ pair ∈ branches,
      (pair.taken satisfied).needsUnderlying → underlying.isSome)
    (hmem : check ∈ branchChecks branches m satisfied underlying) :
    check.Passes := by
  cases branches with
  | none => cases hmem
  | some pair =>
    obtain rfl := List.mem_singleton.1 hmem
    exact Check.passes_values_iff.2 (h pair rfl)

/-- A wrapper has the result that its factories read, and it declares over
this result alone. -/
theorem passes_of_mem_wrapChecks {heading : Heading}
    {branches : Option (Branches (Factory τ ν M))} {place : Place} {m : M}
    {inner : Result τ} {check : Check τ ν}
    (hmem : check ∈ wrapChecks heading branches place m inner) :
    check.Passes := by
  rcases List.mem_append.1 hmem with hmem | hmem
  · exact passes_of_mem_branchChecks (fun _ _ _ => rfl) hmem
  · obtain ⟨declaration, -, hmem⟩ := mem_afterOk.1 hmem
    obtain rfl := List.mem_singleton.1 hmem
    exact Check.passes_declared_iff.2 (by simp)

/-- Every check passes in a specification that is well-formed, whatever its
callbacks do. -/
theorem WellFormed.passes {s : Specification τ ν M} (h : s.WellFormed)
    {place : Place} {m : M} {check : Check τ ν}
    (hcheck : check ∈ s.checks place m) : check.Passes := by
  induction s generalizing place with
  | atomic heading predicate branches =>
    obtain ⟨satisfied, -, hmem⟩ := mem_afterOk.1 hcheck
    refine passes_of_mem_branchChecks (fun pair hpair hneeds => ?_) hmem
    rw [h pair hpair satisfied] at hneeds
    cases hneeds
  | wrapper heading inner branches ih =>
    rcases List.mem_append.1 hcheck with hmem | hmem
    · exact ih h hmem
    · obtain ⟨result, -, hmem⟩ := mem_afterOk.1 hmem
      exact passes_of_mem_wrapChecks hmem
  | computed heading function branches =>
    obtain ⟨result, -, hmem⟩ := mem_afterOk.1 hcheck
    exact passes_of_mem_wrapChecks hmem
  | composite heading op count operands ih =>
    rcases List.mem_append.1 hcheck with hmem | hmem
    · obtain ⟨i, -, hmem⟩ := List.mem_flatMap.1 hmem
      exact ih i (h.2.2 i) hmem
    · obtain ⟨results, hresults, hmem⟩ := mem_afterOk.1 hmem
      obtain rfl := List.mem_singleton.1 hmem
      exact Check.passes_operator_iff.2
        (Traced.accepts_of_runUntil h.1 hresults)
  | quantified heading quantifier item branches ih =>
    rcases List.mem_append.1 hcheck with hmem | hmem
    · obtain ⟨entry, -, hmem⟩ := List.mem_flatMap.1 hmem
      exact ih h hmem
    · obtain ⟨results, -, hmem⟩ := mem_afterOk.1 hmem
      obtain ⟨declaration, -, hmem⟩ := mem_afterOk.1 hmem
      obtain rfl := List.mem_singleton.1 hmem
      exact Check.passes_declared_iff.2 lt_of_mem_select

/-- In a specification that can be built every check passes, so that an
evaluation answers if no callback fails and otherwise fails with what its
callback raised. -/
theorem Built.passes_and_answers {s : Specification τ ν M} (h : s.Built)
    (position place : Place) (m : M) :
    (∀ check ∈ s.checks place m, check.Passes) ∧
      ((∀ call ∈ s.calls position place m, call.failure = none) →
        ∃ r, (s.evaluate place m).outcome = .ok r) ∧
      ∀ e, (s.evaluate place m).outcome = .error e →
        FailsWith (s.calls position place m) e := by
  have hpasses : ∀ check ∈ s.checks place m, check.Passes :=
    fun check hcheck => h.wellFormed.passes hcheck
  have htells := tells_checks s position place m
  rw [Traced.Tells, notes_evaluate_marked,
    (refines_evaluate s position place m).1] at htells
  have hfails : ∀ e, (s.evaluate place m).outcome = .error e →
      FailsWith (s.calls position place m) e := by
    intro e he
    rcases htells.2 e he with hfails | ⟨⟨check, hmem, hcheck⟩, -⟩
    · exact hfails
    · exact absurd (hpasses check hmem) hcheck
  refine ⟨hpasses, fun hcalls => ?_, hfails⟩
  cases houtcome : (s.evaluate place m).outcome with
  | ok r => exact ⟨r, rfl⟩
  | error e =>
    obtain ⟨before, call, raised, heq, -, hcall, -⟩ := hfails e houtcome
    have hnone := hcalls call (by simp [heq])
    rw [hcall] at hnone
    cases hnone

/-- Evenness explained by the result that it negates. -/
def evenBecause : Draft String Unit Nat where
  source := .specification <| negation (.root 2)
    (.atomic ⟨.root 3, "odd", {}⟩ (fun n => pure (n % 2 == 1)) none)
  branches :=
    { whenTrue := .result fun _ r => pure ("not " ++ r.label.statement)
      whenFalse := .constant "odd" }

/-- Whether each of some numbers is zero or else even. -/
def eachZeroOrEven : QuantifierDraft String Unit Nat where
  item := combine (.root 0) .orElse
    (.atomic ⟨.root 1, "zero", {}⟩ (fun n => pure (n == 0)) none)
    (evenBecause.toSpecification (.root 4) "even")
  quantifier := .all

/-- The specification of the draft. -/
def allZeroOrEven : Specification String Unit (List Nat) :=
  eachZeroOrEven.toSpecification (.root 5) "each is zero or even"

theorem built_allZeroOrEven : allZeroOrEven.Built := by
  have heven : (evenBecause.toSpecification (.root 4) "even").Built := by
    refine .draft (fun inner hinner => ?_)
      (checked_eq_ok_iff.2 ⟨by decide, rfl⟩)
    obtain rfl := Source.specification.inj hinner
    exact .negation _ (.atomic (by decide) _)
  exact .quantified
    (.combine _ (by decide) (.atomic (by decide) _) heven) (by decide)

/-- Two numbers take six checks, and all of them pass. -/
theorem passes_and_answers_allZeroOrEven :
    allZeroOrEven.Built ∧
      (allZeroOrEven.checks (.root 6) [0, 2]).length = 6 ∧
      (∀ check ∈ allZeroOrEven.checks (.root 6) [0, 2], check.Passes) ∧
      ∃ r, (allZeroOrEven.evaluate (.root 6) [0, 2]).outcome = .ok r := by
  have hcalls : ∀ call ∈ allZeroOrEven.calls (.root 7) (.root 6) [0, 2],
      call.failure = none := by decide
  have h := built_allZeroOrEven.passes_and_answers (.root 7) (.root 6) [0, 2]
  exact ⟨built_allZeroOrEven, by decide, h.1, h.2.1 hcalls⟩

end Specification

end Rationale
