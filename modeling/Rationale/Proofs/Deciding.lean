import Rationale.Description
import Rationale.Policy
import Rationale.Proofs.Checks
import Rationale.Proofs.Frontier

/-!
# Policies decide

A policy is created from factories that make one value each.  So its result
declares one value, whatever the outcome, and executing the policy fails only
if evaluating its specification fails.  There are four groups.

* Factories.  A factory that is said to make one value makes one.
* Declarations.  `Result.DeclaresOne` says that a result declares one value
  and shows nothing else.  `Specification.DeclaresBy` are the specifications
  that declare through two factories, and `DeclaresBy.declaresOne` that their
  results declare one value if both factories make one.
* Decisions.  `Policy.Decides` is what a policy does whose results declare one
  value.
* Policies.  `createPolicy_decides` says that all policies that are created do
  this.
-/

namespace Rationale

variable {τ ν M I : Type}

/-! ## Factories -/

theorem Traced.exists_eq_singleton {ε α : Type} {x : Traced ν ε α}
    {values : List α}
    (h : (x >>= fun a => pure [a]).outcome = .ok values) :
    ∃ value, values = [value] := by
  obtain ⟨value, -, hvalue⟩ := bind_eq_ok_iff.1 h
  exact ⟨value, (Except.ok.inj hvalue).symm⟩

theorem Factory.exists_eq_singleton {factory : Factory τ ν M}
    (h : factory.isSingleValued) {m : M} {underlying : Option (Result τ)}
    {values : List τ}
    (hvalues : (factory.resolve m underlying).outcome = .ok values) :
    ∃ value, values = [value] := by
  cases factory with
  | constant value => exact ⟨value, (Except.ok.inj hvalues).symm⟩
  | model f => exact Traced.exists_eq_singleton hvalues
  | result f =>
    cases underlying with
    | none => cases hvalues
    | some r => exact Traced.exists_eq_singleton hvalues
  | constants _ | modelMany _ | resultMany _ => cases h

theorem SnapshotFactory.exists_eq_singleton {factory : SnapshotFactory τ ν I}
    (h : factory.isSingleValued) {snapshot : Snapshot τ I} {values : List τ}
    (hvalues : (factory.resolve snapshot).outcome = .ok values) :
    ∃ value, values = [value] := by
  rw [← isSingleValued_toFactory] at h
  rw [← resolve_toFactory] at hvalues
  exact Factory.exists_eq_singleton h hvalues

/-- Both factories were supplied if both are said to make one value. -/
theorem QuantifierDraft.exists_branches {d : QuantifierDraft τ ν I}
    (h : isSingleValued d.whenTrue && isSingleValued d.whenFalse) :
    ∃ pair, d.branches? = some pair ∧
      ∀ satisfied, (pair.taken satisfied).isSingleValued := by
  obtain ⟨item, quantifier, whenTrue, whenFalse⟩ := d
  cases whenTrue with
  | none => cases h
  | some whenTrue =>
    cases whenFalse with
    | none => simp [isSingleValued] at h
    | some whenFalse =>
      refine ⟨⟨whenTrue, whenFalse⟩, rfl, fun satisfied => ?_⟩
      rw [Bool.and_eq_true] at h
      cases satisfied with
      | true => exact h.1
      | false => exact h.2

/-! ## Declarations -/

/-- The result declares one value, the one that was made for it, and it shows
nothing else. -/
structure Result.DeclaresOne [DecidableEq τ] (r : Result τ)
    (making : Traced ν Raised (List τ)) (value : τ) : Prop where
  made : making.outcome = .ok [value]
  declared : r.label.values = [value]
  shown : r.metadata = [value]

/-- What a result declares of its own is all that it shows. -/
theorem Result.declaresOne_of_declared [DecidableEq τ] {r : Result τ}
    {making : Traced ν Raised (List τ)} {value : τ}
    (hmade : making.outcome = .ok [value])
    (hdeclared : r.label.values = [value]) : r.DeclaresOne making value := by
  refine ⟨hmade, hdeclared, ?_⟩
  have hdeclares : Node.declares (fun finding : Finding τ => finding.values)
      r := by
    simp [Node.declares, hdeclared]
  rw [metadata, Node.values_eq_own _ hdeclares, hdeclared]

namespace Specification

/-- The specifications that declare through two factories, except for
quantifiers. -/
inductive DeclaresBy (pair : Branches (Factory τ ν M)) :
    Specification τ ν M → Prop where
  | atomic (heading : Heading) (predicate : M → Traced ν Raised Bool) :
      DeclaresBy pair (.atomic heading predicate (some pair))
  | wrapper (heading : Heading) (inner : Specification τ ν M) :
      DeclaresBy pair (.wrapper heading inner (some pair))
  | computed (heading : Heading)
      (function : Place → M → Traced ν Raised (Result τ)) :
      DeclaresBy pair (.computed heading function (some pair))

/-- A draft keeps its factories, also in another notation. -/
theorem declaresBy_toSpecification (d : Draft τ ν M) (place : Place)
    (statement : String) :
    DeclaresBy d.branches (d.toSpecification place statement) := by
  unfold Draft.toSpecification
  cases d.source with
  | predicate p => cases d.style <;> exact .atomic ..
  | specification inner => cases d.style <;> exact .wrapper ..
  | function f => cases d.style <;> exact .computed ..

/-- One value that is made is declared alone. -/
theorem exists_of_declareBy_single {heading : Heading} {satisfied : Bool}
    {making : Traced ν Raised (List τ)} {make : List τ → Declaration τ}
    {bare declaration : Declaration τ}
    (hsingle : ∀ {values}, making.outcome = .ok values →
      ∃ value, values = [value])
    (h : (declareBy heading satisfied (some making) make bare).outcome =
      .ok declaration) :
    ∃ value, making.outcome = .ok [value] ∧ declaration = make [value] := by
  rcases exists_of_declareBy h with ⟨hnone, -⟩ | ⟨x, values, hx, hvalues, rfl⟩
  · cases hnone
  · obtain rfl := Option.some.inj hx
    obtain ⟨value, rfl⟩ := hsingle hvalues
    exact ⟨value, hvalues, rfl⟩

variable [Metadata τ]

theorem exists_of_declare {heading : Heading}
    {pair : Branches (Factory τ ν M)} {satisfied : Bool}
    (hsingle : (pair.taken satisfied).isSingleValued) {m : M}
    {underlying : Option (Result τ)} {declaration : Declaration τ}
    (h : (declare heading (some pair) m satisfied underlying).outcome =
      .ok declaration) :
    ∃ value, ((pair.taken satisfied).resolve m underlying).outcome =
        .ok [value] ∧ declaration.values = [value] := by
  rw [declare_eq] at h
  obtain ⟨value, hvalue, rfl⟩ :=
    exists_of_declareBy_single (Factory.exists_eq_singleton hsingle) h
  exact ⟨value, hvalue, rfl⟩

theorem exists_of_declareSnapshot {heading : Heading}
    {pair : Branches (SnapshotFactory τ ν I)} {satisfied : Bool}
    (hsingle : (pair.taken satisfied).isSingleValued)
    {snapshot : Snapshot τ I} {declaration : Declaration τ}
    (h : (declareSnapshot heading (some pair) satisfied snapshot).outcome =
      .ok declaration) :
    ∃ value, ((pair.taken satisfied).resolve snapshot).outcome =
        .ok [value] ∧ declaration.values = [value] := by
  rw [declareSnapshot_eq] at h
  obtain ⟨value, hvalue, rfl⟩ :=
    exists_of_declareBy_single (SnapshotFactory.exists_eq_singleton hsingle) h
  exact ⟨value, hvalue, rfl⟩

variable [DecidableEq τ]

/-- A result declares the value that the factory of its branch makes of the
model and of what the result rests on. -/
theorem DeclaresBy.declaresOne {s : Specification τ ν M}
    {pair : Branches (Factory τ ν M)} (h : s.DeclaresBy pair)
    (hsingle : ∀ satisfied, (pair.taken satisfied).isSingleValued)
    {place : Place} {m : M} {r : Result τ}
    (hr : (s.evaluate place m).outcome = .ok r) :
    ∃ value, r.DeclaresOne
      ((pair.taken r.satisfied).resolve m r.operands.head?) value := by
  have hone {satisfied : Bool} {underlying : Option (Result τ)}
      {heading : Heading} {declaration : Declaration τ}
      (hsatisfied : r.satisfied = satisfied)
      (hunderlying : r.operands.head? = underlying)
      (hvalues : r.label.values = declaration.values)
      (hdeclaration : (declare heading (some pair) m satisfied
        underlying).outcome = .ok declaration) :
      ∃ value, r.DeclaresOne
        ((pair.taken r.satisfied).resolve m r.operands.head?) value := by
    obtain ⟨value, hmade, hdeclared⟩ :=
      exists_of_declare (hsingle satisfied) hdeclaration
    subst hsatisfied hunderlying
    have hvalue := hvalues.trans hdeclared
    exact ⟨value, Result.declaresOne_of_declared hmade hvalue⟩
  cases h with
  | atomic heading predicate =>
    obtain ⟨satisfied, -, declaration, hdeclaration, rfl⟩ :=
      evaluate_atomic_eq_ok_iff.1 hr
    exact hone rfl rfl rfl hdeclaration
  | wrapper heading inner =>
    obtain ⟨result, -, declaration, hdeclaration, rfl⟩ :=
      evaluate_wrapper_eq_ok_iff.1 hr
    exact hone rfl rfl rfl hdeclaration
  | computed heading function =>
    obtain ⟨result, -, declaration, hdeclaration, rfl⟩ :=
      evaluate_computed_eq_ok_iff.1 hr
    exact hone rfl rfl rfl hdeclaration

/-- A quantifier's result declares the value that the factory of its branch
makes of the items and their results. -/
theorem declaresOne_quantified {heading : Heading} {quantifier : Quantifier}
    {item : Specification τ ν I} {pair : Branches (SnapshotFactory τ ν I)}
    (hsingle : ∀ satisfied, (pair.taken satisfied).isSingleValued)
    {place : Place} {models : List I} {r : Result τ}
    (hr : ((quantified heading quantifier item (some pair)).evaluate place
      models).outcome = .ok r) :
    ∃ value, r.DeclaresOne ((pair.taken r.satisfied).resolve
      ⟨models, r.operands,
        (quantifier.select (r.operands.map Result.satisfied)).causes⟩)
      value := by
  obtain ⟨results, -, declaration, hdeclaration, rfl⟩ :=
    evaluate_quantified_eq_ok_iff.1 hr
  obtain ⟨value, hmade, hdeclared⟩ :=
    exists_of_declareSnapshot (hsingle _) hdeclaration
  exact ⟨value, Result.declaresOne_of_declared hmade hdeclared⟩

end Specification

/-! ## Decisions -/

namespace Policy

variable [Metadata τ]

/-- Executing the policy is evaluating its specification.  It succeeds if the
evaluation does, and decides on the one value that the result declares.  It
fails with the error of the evaluation and with no other. -/
structure Decides [DecidableEq τ] (p : Policy τ ν M) (place : Place) (m : M)
    (making : Result τ → Traced ν Raised (List τ)) : Prop where
  notes : (p.execute place m).notes = (p.specification.evaluate place m).notes
  succeeds : (∃ decision, (p.execute place m).outcome = .ok decision) ↔
    ∃ r, (p.specification.evaluate place m).outcome = .ok r
  fails : ∀ e, (p.execute place m).outcome = .error e ↔
    (p.specification.evaluate place m).outcome = .error e
  decides : ∀ r, (p.specification.evaluate place m).outcome = .ok r →
    ∃ value, (p.execute place m).outcome = .ok ⟨value, r⟩ ∧
      r.DeclaresOne (making r) value

/-- The one value that a result declares is taken. -/
theorem execute_of_declared {p : Policy τ ν M} {place : Place} {m : M}
    {r : Result τ} {value : τ}
    (hr : (p.specification.evaluate place m).outcome = .ok r)
    (hdeclared : r.label.values = [value]) :
    p.execute place m =
      ⟨(p.specification.evaluate place m).notes, .ok ⟨value, r⟩⟩ := by
  rw [execute, Traced.bind_of_ok hr, hdeclared]
  simp

variable [DecidableEq τ]

/-- Where every result declares one value, the policy takes it. -/
theorem decides_of_declaresOne {p : Policy τ ν M} {place : Place} {m : M}
    {making : Result τ → Traced ν Raised (List τ)}
    (h : ∀ r, (p.specification.evaluate place m).outcome = .ok r →
      ∃ value, r.DeclaresOne (making r) value) : p.Decides place m making := by
  cases hevaluate : (p.specification.evaluate place m).outcome with
  | ok r =>
    obtain ⟨value, hone⟩ := h r hevaluate
    have hexecute := execute_of_declared hevaluate hone.declared
    constructor
    case notes => rw [hexecute]
    case succeeds => simp [hexecute, hevaluate]
    case fails => simp [hexecute, hevaluate]
    case decides =>
      intro r' hr'
      obtain rfl := Except.ok.inj (hevaluate.symm.trans hr')
      exact ⟨value, by rw [hexecute], hone⟩
  | error e =>
    have hexecute : p.execute place m =
        ⟨(p.specification.evaluate place m).notes, .error e⟩ :=
      Traced.bind_of_error hevaluate _
    constructor
    case notes => rw [hexecute]
    case succeeds => simp [hexecute, hevaluate]
    case fails => simp [hexecute, hevaluate]
    case decides =>
      intro r hr
      cases hevaluate.symm.trans hr

end Policy

/-! ## Policies -/

theorem ite_checked_eq_ok_iff {α : Type 1} {allowed : Bool}
    {fault : Option Fault} {a b : α} {e : Error} :
    (if allowed then checked fault a else .error e) = .ok b ↔
      allowed = true ∧ fault = none ∧ a = b := by
  cases allowed with
  | true => simp [checked_eq_ok_iff]
  | false => simp

section Policies

variable [Metadata τ] {made : Place} {statement : String}

/-- A policy is created if both factories make one value and the draft has no
fault. -/
theorem Draft.createPolicy_eq_ok_iff {d : Draft τ ν M} {p : Policy τ ν M} :
    d.createPolicy made statement = .ok p ↔
      (∀ satisfied, (d.branches.taken satisfied).isSingleValued) ∧
        d.fault? statement = none ∧
        ⟨d.toSpecification made statement⟩ = p := by
  have hsingle : (∀ satisfied, (d.branches.taken satisfied).isSingleValued) ↔
      (d.branches.whenTrue.isSingleValued &&
        d.branches.whenFalse.isSingleValued) = true := by
    rw [Bool.forall_bool, Bool.and_eq_true, and_comm]
    rfl
  rw [createPolicy, ite_checked_eq_ok_iff, hsingle]

theorem QuantifierDraft.createPolicy_eq_ok_iff {d : QuantifierDraft τ ν I}
    {p : Policy τ ν (List I)} :
    d.createPolicy made statement = .ok p ↔
      (isSingleValued d.whenTrue && isSingleValued d.whenFalse) = true ∧
        d.fault? statement = none ∧
        ⟨d.toSpecification made statement⟩ = p :=
  ite_checked_eq_ok_iff

end Policies

namespace Policy

variable [Metadata τ] [DecidableEq τ]

/-- Every policy that is created decides, whatever its factories do.  The
value is what the factory of the branch taken makes: of the model and the
result below, or of the items and their results. -/
theorem createPolicy_decides :
    (∀ (d : Draft τ ν M) (made : Place) (statement : String)
        (p : Policy τ ν M), d.createPolicy made statement = .ok p →
      ∀ place m, p.Decides place m fun r =>
        (d.branches.taken r.satisfied).resolve m r.operands.head?) ∧
    ∀ (d : QuantifierDraft τ ν I) (made : Place) (statement : String)
        (p : Policy τ ν (List I)), d.createPolicy made statement = .ok p →
      ∃ pair, d.branches? = some pair ∧
        ∀ place models, p.Decides place models fun r =>
          (pair.taken r.satisfied).resolve ⟨models, r.operands,
            (d.quantifier.select
              (r.operands.map Result.satisfied)).causes⟩ := by
  constructor
  · intro d made statement p hp place m
    obtain ⟨hsingle, -, rfl⟩ := Draft.createPolicy_eq_ok_iff.1 hp
    have hdeclares := Specification.declaresBy_toSpecification d made statement
    exact decides_of_declaresOne fun r => hdeclares.declaresOne hsingle
  · intro d made statement p hp
    obtain ⟨hsingle, -, rfl⟩ := QuantifierDraft.createPolicy_eq_ok_iff.1 hp
    obtain ⟨pair, hpair, hbranches⟩ := QuantifierDraft.exists_branches hsingle
    refine ⟨pair, hpair, fun place models => ?_⟩
    refine decides_of_declaresOne fun r hr => ?_
    rw [QuantifierDraft.toSpecification, hpair] at hr
    exact Specification.declaresOne_quantified hbranches hr

/-- Whether a number is even, in a notation of its own. -/
def evenPolicy : Draft String Unit Nat where
  source := Specification.evenBecause.source
  branches :=
    { whenTrue := .result fun _ r => pure ("because " ++ r.label.statement)
      whenFalse := .constant "odd" }
  style := some { notSymbol := "~" }

/-- How many of some numbers are zero or else even. -/
def countingPolicy : QuantifierDraft String Unit Nat :=
  { Specification.eachZeroOrEven with
    whenTrue := some (.constant "all of them")
    whenFalse := some (.snapshot fun s => pure (toString s.trueCount)) }

/-- Two policies decide. -/
theorem createPolicy_decides_even :
    (∃ p, evenPolicy.createPolicy (.root 5) "even" = .ok p ∧
      ∃ r, (p.execute (.root 6) 2).outcome = .ok ⟨"because ~odd", r⟩ ∧
        r.metadata = ["because ~odd"]) ∧
    ∃ p, countingPolicy.createPolicy (.root 5) "even" = .ok p ∧
      ∃ r, (p.execute (.root 6) [0, 1]).outcome = .ok ⟨"1", r⟩ ∧
        r.metadata = ["1"] := by
  have hdecides {M : Type} {p : Policy String Unit M} {place : Place} {m : M}
      {making : Result String → Traced Unit Raised (List String)}
      {r : Result String} {value : String} (h : p.Decides place m making)
      (hr : (p.specification.evaluate place m).outcome = .ok r)
      (hvalue : r.label.values = [value]) :
      ∃ r, (p.execute place m).outcome = .ok ⟨value, r⟩ ∧
        r.metadata = [value] := by
    obtain ⟨value', hexecute, hone⟩ := h.decides r hr
    obtain rfl : value' = value := by
      simpa using hone.declared.symm.trans hvalue
    exact ⟨r, hexecute, hone.shown⟩
  constructor
  · have hcreate : evenPolicy.createPolicy (.root 5) "even" =
        .ok ⟨evenPolicy.toSpecification (.root 5) "even"⟩ :=
      Draft.createPolicy_eq_ok_iff.2 ⟨by decide, by decide, rfl⟩
    have h := (createPolicy_decides (I := Nat)).1 evenPolicy _ _ _ hcreate
      (.root 6) 2
    exact ⟨_, hcreate, hdecides h rfl rfl⟩
  · have hcreate : countingPolicy.createPolicy (.root 5) "even" =
        .ok ⟨countingPolicy.toSpecification (.root 5) "even"⟩ :=
      QuantifierDraft.createPolicy_eq_ok_iff.2 ⟨by decide, by decide, rfl⟩
    obtain ⟨pair, -, h⟩ :=
      (createPolicy_decides (M := Nat)).2 countingPolicy _ _ _ hcreate
    exact ⟨_, hcreate, hdecides (h (.root 6) [0, 1]) rfl rfl⟩

end Policy

end Rationale
