import Rationale.Proofs.Calls
import Rationale.Proofs.Node

/-!
# The trace of an evaluation

`Specification.calls` lists the callbacks that a specification is to invoke
on a model, in order, by recursion on the specification.  It consults the
outcomes of the parts and never the order in which an evaluation runs.
There are three groups.

* The trace.  A specification calls what decides it and then the factory
  of the branch that is taken.  Operands are called in order until one of
  them fails or settles the operator, and items until one of them fails.
* Marked evaluations.  `notes_evaluate_marked` says that the marks that an
  evaluation leaves are the trace.
* What is left out.  Nothing is called behind a settling operand, and no
  factory of the branch that is not taken.
-/

namespace Rationale

/-! ## The trace -/

section Trace

variable {τ ν : Type} {M : Type}

/-- Whether no operand after one with this outcome is evaluated. -/
def Operator.stopsAfter (op : Operator) : Except Error (Result τ) → Bool
  | .error _ => true
  | .ok r =>
    match op with
    | .andAlso => !r.satisfied
    | .orElse => r.satisfied
    | .and | .or | .xor | .not => false

/-- The call of a factory.  Fixed values are no callback, and neither is a
factory without the result that it reads. -/
def Factory.calls (factory : Factory τ ν M) (callback : Callback) (m : M)
    (underlying : Option (Result τ)) : List (Call ν) :=
  match factory, underlying with
  | .constant _, _ | .constants _, _ => []
  | .model f, _ => [(f m).call callback]
  | .modelMany f, _ => [(f m).call callback]
  | .result f, some r => [(f m r).call callback]
  | .resultMany f, some r => [(f m r).call callback]
  | .result _, none | .resultMany _, none => []

/-- The call of a factory.  Fixed values are no callback. -/
def SnapshotFactory.calls {I : Type} (factory : SnapshotFactory τ ν I)
    (callback : Callback) (s : Snapshot τ I) : List (Call ν) :=
  match factory with
  | .constant _ | .constants _ => []
  | .snapshot f => [(f s).call callback]
  | .snapshotMany f => [(f s).call callback]

/-- A factory over a snapshot is called with the snapshot for its model. -/
theorem SnapshotFactory.calls_toFactory {I : Type}
    (factory : SnapshotFactory τ ν I) (callback : Callback)
    (s : Snapshot τ I) :
    factory.toFactory.calls callback s none = factory.calls callback s := by
  cases factory <;> rfl

/-- A factory is called as the callback in question. -/
theorem Factory.callback_of_mem_calls {factory : Factory τ ν M}
    {callback : Callback} {m : M} {underlying : Option (Result τ)}
    {call : Call ν} (h : call ∈ factory.calls callback m underlying) :
    call.callback = callback := by
  cases factory <;> cases underlying <;>
    simp only [calls, List.mem_singleton, List.not_mem_nil] at h <;>
    rw [h, Traced.call_callback]

namespace Specification

/-- The call of the factory of the branch taken. -/
def branchCalls (position : Place) (heading : Heading)
    (branches : Option (Branches (Factory τ ν M))) (m : M) (satisfied : Bool)
    (underlying : Option (Result τ)) : List (Call ν) :=
  match branches with
  | none => []
  | some pair =>
    (pair.taken satisfied).calls
      ⟨position, heading.statement, .ofOutcome satisfied⟩ m underlying

/-- The call of the factory of the branch taken. -/
def snapshotCalls {I : Type} (position : Place) (heading : Heading)
    (branches : Option (Branches (SnapshotFactory τ ν I))) (satisfied : Bool)
    (s : Snapshot τ I) : List (Call ν) :=
  match branches with
  | none => []
  | some pair =>
    (pair.taken satisfied).calls
      ⟨position, heading.statement, .ofOutcome satisfied⟩ s

variable [Metadata τ]

/-- The results of all items, or the first failure among them. -/
def itemResults {I : Type} (item : Specification τ ν I) (place : Place)
    (models : List I) : Except Error (List (Result τ)) :=
  models.zipIdx.mapM fun entry =>
    (item.evaluate (place.child entry.2) entry.1).outcome

/-- The callbacks that a specification at a position invokes on a model, in
order. -/
def calls : {M : Type} → Specification τ ν M → Place → Place → M →
    List (Call ν)
  | _, .atomic heading predicate branches, position, _, m =>
    (predicate m).call ⟨position, heading.statement, .predicate⟩ ::
      match (predicate m).outcome with
      | .ok satisfied => branchCalls position heading branches m satisfied none
      | .error _ => []
  | _, .wrapper heading inner branches, position, place, m =>
    inner.calls (position.child 0) place m ++
      match (inner.evaluate place m).outcome with
      | .ok r => branchCalls position heading branches m r.satisfied (some r)
      | .error _ => []
  | _, .computed heading function branches, position, place, m =>
    (function place m).call ⟨position, heading.statement, .predicate⟩ ::
      match (function place m).outcome with
      | .ok r => branchCalls position heading branches m r.satisfied (some r)
      | .error _ => []
  | _, .composite _ op count operands, position, place, m =>
    (upTo
      (fun i =>
        op.stopsAfter ((operands i).evaluate (place.child i) m).outcome)
      (List.finRange count)).flatMap fun i =>
        (operands i).calls (position.child i) (place.child i) m
  | _, .quantified heading quantifier item branches, position, place, models =>
    ((upTo
      (fun entry =>
        !(item.evaluate (place.child entry.2) entry.1).outcome.isOk)
      models.zipIdx).flatMap fun entry =>
        item.calls (position.child 0) (place.child entry.2) entry.1) ++
      match itemResults item place models with
      | .ok results =>
        let selection := quantifier.select (results.map Result.satisfied)
        snapshotCalls position heading branches selection.satisfied
          ⟨models, results, selection.causes⟩
      | .error _ => []

/-- The branch that is taken, once it is known. -/
def branchTaken : {M : Type} → Specification τ ν M → Place → M → Option Bool
  | _, .atomic _ predicate _, _, m => (predicate m).outcome.toOption
  | _, .wrapper _ inner _, place, m =>
    (inner.evaluate place m).outcome.toOption.map Result.satisfied
  | _, .computed _ function _, place, m =>
    (function place m).outcome.toOption.map Result.satisfied
  | _, .composite heading op count operands, place, m =>
    ((composite heading op count operands).evaluate place
      m).outcome.toOption.map Result.satisfied
  | _, .quantified _ quantifier item _, place, models =>
    (itemResults item place models).toOption.map fun results =>
      (quantifier.select (results.map Result.satisfied)).satisfied

end Specification

end Trace

/-! ## Marked evaluations -/

namespace Specification

variable {τ ν : Type} {M : Type}

theorem stopsAfter_eq_ends (op : Operator) (x : Traced ν Error (Result τ)) :
    op.stopsAfter x.outcome =
      x.ends fun r => op.settledBy = some r.satisfied := by
  rw [Traced.ends]
  cases x.outcome with
  | error e => rfl
  | ok r =>
    simp only [Operator.stopsAfter]
    cases op <;> cases r.satisfied <;> rfl

theorem notes_resolve (factory : Factory τ ν M) (callback : Callback) (m : M)
    (underlying : Option (Result τ)) :
    ((factory.marked callback).resolve m underlying).notes =
      factory.calls callback m underlying := by
  cases factory with
  | constant value => rfl
  | constants values => rfl
  | model f => exact Traced.bind_notes_of_nil fun a => rfl
  | modelMany f => rfl
  | result f =>
    cases underlying with
    | none => rfl
    | some r => exact Traced.bind_notes_of_nil fun a => rfl
  | resultMany f => cases underlying <;> rfl

theorem notes_resolve_snapshot {I : Type} (factory : SnapshotFactory τ ν I)
    (callback : Callback) (s : Snapshot τ I) :
    ((factory.marked callback).resolve s).notes = factory.calls callback s := by
  rw [← SnapshotFactory.resolve_toFactory, SnapshotFactory.marked_toFactory,
    notes_resolve, SnapshotFactory.calls_toFactory]

/-- Factories that are called are called as the callback in question. -/
theorem callback_of_mem_branchCalls {position : Place} {heading : Heading}
    {branches : Option (Branches (Factory τ ν M))} {m : M} {satisfied : Bool}
    {underlying : Option (Result τ)} {call : Call ν}
    (h : call ∈
      branchCalls position heading branches m satisfied underlying) :
    call.callback =
      ⟨position, heading.statement, .ofOutcome satisfied⟩ := by
  cases branches with
  | none => cases h
  | some pair => exact Factory.callback_of_mem_calls h

theorem callback_of_mem_snapshotCalls {I : Type} {position : Place}
    {heading : Heading} {branches : Option (Branches (SnapshotFactory τ ν I))}
    {satisfied : Bool} {s : Snapshot τ I} {call : Call ν}
    (h : call ∈ snapshotCalls position heading branches satisfied s) :
    call.callback =
      ⟨position, heading.statement, .ofOutcome satisfied⟩ := by
  cases branches with
  | none => cases h
  | some pair =>
    rw [snapshotCalls, ← SnapshotFactory.calls_toFactory] at h
    exact Factory.callback_of_mem_calls h

/-- A declaration leaves what its factory leaves. -/
theorem notes_declareBy (heading : Heading) (satisfied : Bool)
    (making : Option (Traced ν Raised (List τ)))
    (make : List τ → Declaration τ) (bare : Declaration τ) :
    (declareBy heading satisfied making make bare).notes =
      making.elim [] Traced.notes := by
  cases making with
  | none => rfl
  | some x => exact Traced.bind_notes_of_nil fun values => rfl

variable [Metadata τ]

theorem notes_declare (position : Place) (heading : Heading)
    (branches : Option (Branches (Factory τ ν M))) (m : M) (satisfied : Bool)
    (underlying : Option (Result τ)) :
    (declare heading (markedBranches position heading branches) m satisfied
      underlying).notes =
        branchCalls position heading branches m satisfied underlying := by
  simp only [declare_eq, notes_declareBy, markedBranches, Option.map_map,
    Function.comp_def, Branches.taken_mapRole]
  cases branches with
  | none => rfl
  | some pair => exact notes_resolve ..

theorem notes_declareSnapshot {I : Type} (position : Place)
    (heading : Heading) (branches : Option (Branches (SnapshotFactory τ ν I)))
    (satisfied : Bool) (snapshot : Snapshot τ I) :
    (declareSnapshot heading
      (markedSnapshotBranches position heading branches) satisfied
      snapshot).notes =
        snapshotCalls position heading branches satisfied snapshot := by
  simp only [declareSnapshot_eq, notes_declareBy, markedSnapshotBranches,
    Option.map_map, Function.comp_def, Branches.taken_mapRole]
  cases branches with
  | none => rfl
  | some pair => exact notes_resolve_snapshot ..

theorem notes_wrap (position : Place) (heading : Heading)
    (branches : Option (Branches (Factory τ ν M))) (place : Place) (m : M)
    (inner : Result τ) :
    (wrap heading (markedBranches position heading branches) place m
      inner).notes =
        branchCalls position heading branches m inner.satisfied
          (some inner) := by
  rw [wrap_eq]
  exact (Traced.bind_notes_of_nil fun _ => rfl).trans (notes_declare ..)

/-- After a callback, the computation goes on if the callback answers. -/
theorem notes_marked_bind {α β : Type} (x : Traced ν Raised α)
    (callback : Callback) (f : α → Traced (Call ν) Error β) :
    ((x.marked callback).raisedBy callback.statement callback.role >>=
      f).notes = x.call callback ::
        match x.outcome with
        | .ok a => (f a).notes
        | .error _ => [] := by
  have hmarked : (x.marked callback).outcome = x.outcome := rfl
  rw [Traced.bind_notes]
  cases hx : x.outcome with
  | ok a =>
    rw [Traced.raisedBy_eq_ok_iff.2 (hmarked.trans hx)]
    rfl
  | error raised =>
    rw [Traced.raisedBy_eq_error_iff.2 ⟨raised, hmarked.trans hx, rfl⟩]
    rfl

/-- The marks that an evaluation leaves are the trace. -/
theorem notes_evaluate_marked (s : Specification τ ν M)
    (position place : Place) (m : M) :
    ((s.marked position).evaluate place m).notes =
      s.calls position place m := by
  induction s generalizing position place with
  | atomic heading predicate branches =>
    rw [marked, evaluate, calls]
    refine (notes_marked_bind _ ⟨position, heading.statement, .predicate⟩
      _).trans (congrArg (List.cons _) ?_)
    cases (predicate m).outcome with
    | error e => rfl
    | ok satisfied =>
      exact (Traced.bind_notes_of_nil fun _ => rfl).trans (notes_declare ..)
  | wrapper heading inner branches ih =>
    rw [marked, evaluate, Traced.bind_notes, ih,
      (refines_evaluate inner _ place m).1, calls]
    cases (inner.evaluate place m).outcome with
    | error e => rfl
    | ok r => exact congrArg (_ ++ ·) (notes_wrap ..)
  | computed heading function branches =>
    rw [marked, evaluate, calls]
    refine (notes_marked_bind _ ⟨position, heading.statement, .predicate⟩
      _).trans (congrArg (List.cons _) ?_)
    cases (function place m).outcome with
    | error e => rfl
    | ok r => exact notes_wrap ..
  | composite heading op count operands ih =>
    rw [marked, evaluate, Traced.bind_notes_of_nil fun _ => rfl,
      Traced.runUntil_notes, calls]
    simp only [ih, ← stopsAfter_eq_ends, (refines_evaluate _ _ _ _).1]
  | quantified heading quantifier item branches ih =>
    rw [marked, evaluate_quantified, Traced.bind_notes, Traced.runAll_outcome,
      calls, itemResults, Traced.runAll, Traced.runUntil_notes]
    simp only [ih, Traced.ends_runAll, (refines_evaluate _ _ _ _).1]
    refine congrArg (_ ++ ·) ?_
    generalize (m.zipIdx.mapM fun entry =>
      (item.evaluate (place.child entry.2) entry.1).outcome) = found
    cases found with
    | error e => rfl
    | ok results =>
      exact (Traced.bind_notes_of_nil fun _ => rfl).trans
        (notes_declareSnapshot ..)

/-! ## What is left out -/

/-- Whether a callback decides the specification at a position, belongs to
a part of it, or makes the values of the branch taken. -/
def BelongsTo (position : Place) (statement : String) (taken : Option Bool)
    (callback : Callback) : Prop :=
  callback = ⟨position, statement, .predicate⟩ ∨
    (∃ i, (position.child i).Contains callback.position) ∨
    ∃ satisfied, taken = some satisfied ∧
      callback = ⟨position, statement, .ofOutcome satisfied⟩

theorem BelongsTo.contains {position : Place} {statement : String}
    {taken : Option Bool} {callback : Callback}
    (h : BelongsTo position statement taken callback) :
    position.Contains callback.position := by
  rcases h with rfl | ⟨i, hi⟩ | ⟨satisfied, -, rfl⟩
  · exact position.contains_refl
  · exact (position.contains_child i).trans hi
  · exact position.contains_refl

/-- Only what decides a specification, its parts and the factory of the
branch that is taken are called. -/
theorem belongsTo_of_mem_calls {s : Specification τ ν M}
    {position place : Place} {m : M} {call : Call ν}
    (h : call ∈ s.calls position place m) :
    BelongsTo position s.statement (s.branchTaken place m) call.callback := by
  induction s generalizing position place with
  | atomic heading predicate branches =>
    rw [calls] at h
    rcases List.mem_cons.1 h with rfl | h
    · exact Or.inl (Traced.call_callback ..)
    · rw [branchTaken]
      cases hm : (predicate m).outcome with
      | error e => simp [hm] at h
      | ok satisfied =>
        rw [hm] at h
        exact Or.inr (Or.inr ⟨satisfied, rfl, callback_of_mem_branchCalls h⟩)
  | wrapper heading inner branches ih =>
    rw [calls] at h
    rcases List.mem_append.1 h with h | h
    · exact Or.inr (Or.inl ⟨0, (ih h).contains⟩)
    · rw [branchTaken]
      cases hr : (inner.evaluate place m).outcome with
      | error e => simp [hr] at h
      | ok r =>
        rw [hr] at h
        exact Or.inr (Or.inr ⟨_, rfl, callback_of_mem_branchCalls h⟩)
  | computed heading function branches =>
    rw [calls] at h
    rcases List.mem_cons.1 h with rfl | h
    · exact Or.inl (Traced.call_callback ..)
    · rw [branchTaken]
      cases hr : (function place m).outcome with
      | error e => simp [hr] at h
      | ok r =>
        rw [hr] at h
        exact Or.inr (Or.inr ⟨_, rfl, callback_of_mem_branchCalls h⟩)
  | composite heading op count operands ih =>
    rw [calls] at h
    obtain ⟨i, -, hi⟩ := List.mem_flatMap.1 h
    exact Or.inr (Or.inl ⟨i, (ih i hi).contains⟩)
  | quantified heading quantifier item branches ih =>
    rw [calls] at h
    rcases List.mem_append.1 h with h | h
    · obtain ⟨entry, -, hentry⟩ := List.mem_flatMap.1 h
      exact Or.inr (Or.inl ⟨0, (ih hentry).contains⟩)
    · rw [branchTaken]
      cases hr : itemResults item place m with
      | error e => simp [hr] at h
      | ok results =>
        rw [hr] at h
        exact Or.inr (Or.inr ⟨_, rfl, callback_of_mem_snapshotCalls h⟩)

/-- The branch that is taken is that of the result. -/
theorem branchTaken_eq {s : Specification τ ν M} {place : Place} {m : M}
    {r : Result τ} (h : (s.evaluate place m).outcome = .ok r) :
    s.branchTaken place m = some r.satisfied := by
  cases s with
  | atomic heading predicate branches =>
    obtain ⟨satisfied, hm, declaration, -, rfl⟩ :=
      evaluate_atomic_eq_ok_iff.1 h
    rw [branchTaken, hm]
    rfl
  | wrapper heading inner branches =>
    obtain ⟨result, hresult, declaration, -, rfl⟩ :=
      evaluate_wrapper_eq_ok_iff.1 h
    rw [branchTaken, hresult]
    rfl
  | computed heading function branches =>
    obtain ⟨result, hresult, declaration, -, rfl⟩ :=
      evaluate_computed_eq_ok_iff.1 h
    rw [branchTaken, hresult]
    rfl
  | composite heading op count operands =>
    rw [branchTaken, h]
    rfl
  | quantified heading quantifier item branches =>
    obtain ⟨results, hresults, declaration, -, rfl⟩ :=
      evaluate_quantified_eq_ok_iff.1 h
    rw [Traced.runAll_outcome] at hresults
    rw [branchTaken, itemResults, hresults]
    rfl

/-- Nothing behind an operand that stops a composite is called. -/
theorem exists_le_of_mem_calls {heading : Heading} {op : Operator}
    {count : Nat} {operands : Fin count → Specification τ ν M}
    {position place : Place} {m : M} {i : Fin count} {call : Call ν}
    (hstops : op.stopsAfter ((operands i).evaluate (place.child i) m).outcome)
    (hcall : call ∈
      (composite heading op count operands).calls position place m) :
    ∃ j ≤ i, (position.child j).Contains call.callback.position := by
  rw [calls] at hcall
  obtain ⟨j, hj, hmem⟩ := List.mem_flatMap.1 hcall
  have hle : j ≤ i :=
    le_of_mem_upTo (List.pairwise_lt_finRange count) (List.mem_finRange i)
      hstops hj
  exact ⟨j, hle, (belongsTo_of_mem_calls hmem).contains⟩

/-- An evaluation invokes exactly the callbacks of the trace, in order and
up to the first that fails.  A specification calls no factory of the branch
that is not taken, and a composite nothing behind an operand that settles
it. -/
theorem evaluate_trace (s : Specification τ ν M) (position place : Place)
    (m : M) :
    ((s.marked position).evaluate place m).notes = s.calls position place m ∧
      ((s.marked position).evaluate place m).outcome =
        (s.evaluate place m).outcome ∧
      (s.evaluate place m).notes =
        (s.calls position place m).flatMap Call.notes ∧
      (∀ call ∈ (s.calls position place m).dropLast, call.failure = none) ∧
      (∀ r, (s.evaluate place m).outcome = .ok r →
        s.branchTaken place m = some r.satisfied) ∧
      (∀ call ∈ s.calls position place m, call.callback.position = position →
        call.callback.role = .predicate ∨
          (s.branchTaken place m).map Role.ofOutcome =
            some call.callback.role) ∧
      ∀ heading op count operands, s = composite heading op count operands →
        ∀ i, op.stopsAfter
            ((operands i).evaluate (place.child i) m).outcome →
          ∀ call ∈ s.calls position place m,
            ∃ j ≤ i, (position.child j).Contains call.callback.position := by
  have hnotes := notes_evaluate_marked s position place m
  have hrefines := refines_evaluate s position place m
  refine ⟨hnotes, hrefines.1, hnotes ▸ hrefines.2, ?_,
    fun r => branchTaken_eq, ?_, ?_⟩
  · exact hnotes ▸ (tells_evaluate s position place m).of_mem_dropLast
  · intro call hcall hposition
    rcases belongsTo_of_mem_calls hcall with heq | ⟨i, hi⟩ | ⟨b, hb, heq⟩
    · exact Or.inl (congrArg Callback.role heq)
    · have hlong := hi.length_le
      rw [hposition, Place.child_path, List.length_cons] at hlong
      omega
    · rw [hb, heq]
      exact Or.inr rfl
  · rintro heading op count operands rfl i hstops call hcall
    exact exists_le_of_mem_calls hstops hcall

end Specification

end Rationale
