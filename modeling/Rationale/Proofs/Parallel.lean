import Rationale.Proofs.Explained
import Rationale.Proofs.Made
import Rationale.Proofs.Tier

/-!
# Parallel tiers

A result has two tiers, its assertions and its values.  They are filled
separately, and yet they go together.  There are four groups.

* Two tiers.  `Result.explanation` and `Result.metadataTier` are the tiers
  as graphs of their own.  `Result.SameShape` says that they differ in
  nothing but the values that their nodes hold.
* Declarations.  `Declaration.Regular` are the declarations that are made
  from values or from a statement or that declare nothing.  They declare
  assertions if and only if they declare values, and the same texts if the
  values are texts.
* Evaluations.  `regular_of_evaluate` says that an evaluation declares
  nothing in another way.
* The result.  `evaluate_parallel` puts these together.
-/

namespace Rationale

/-! ## Two tiers -/

namespace Result

variable {τ : Type}

/-- The tier of the assertions. -/
def explanation (r : Result τ) : Node (Finding τ × List String) :=
  r.tier fun finding => finding.assertions

/-- The tier of the values. -/
def metadataTier (r : Result τ) : Node (Finding τ × List τ) :=
  r.tier fun finding => finding.values

/-- Both tiers are built alike: out of the tiers of the operands and of the
causes, as one graph once the values are left out, and with the same nodes
shared.  Their views visit the nodes that the views of the result visit,
and show the same. -/
structure SameShape [DecidableEq τ] (r : Result τ) : Prop where
  explanation_next : ∀ edges,
    r.explanation.next edges = (r.next edges).map explanation
  metadataTier_next : ∀ edges,
    r.metadataTier.next edges = (r.next edges).map metadataTier
  graph : r.explanation.map Prod.fst = r.metadataTier.map Prod.fst
  shared : ∀ a b : Result τ,
    a.explanation = b.explanation ↔ a.metadataTier = b.metadataTier
  explanation_nodes : ∀ survey : Node.Survey,
    survey.nodes Prod.snd r.explanation =
      (survey.nodes (fun finding => finding.assertions) r).map explanation
  metadataTier_nodes : ∀ survey : Node.Survey,
    survey.nodes Prod.snd r.metadataTier =
      (survey.nodes (fun finding => finding.values) r).map metadataTier
  explanation_view : ∀ survey : Node.Survey,
    survey.view Prod.snd r.explanation =
      survey.view (fun finding => finding.assertions) r
  metadataTier_view : ∀ survey : Node.Survey,
    survey.view Prod.snd r.metadataTier =
      survey.view (fun finding => finding.values) r

theorem sameShape [DecidableEq τ] (r : Result τ) : r.SameShape where
  explanation_next edges := Node.map_next _ edges r
  metadataTier_next edges := Node.map_next _ edges r
  graph := (Node.map_fst_tier _ r).trans (Node.map_fst_tier _ r).symm
  shared _ _ :=
    (Node.copies_tier _).injective.eq_iff.trans
      (Node.copies_tier _).injective.eq_iff.symm
  explanation_nodes survey := survey.nodes_tier _ r
  metadataTier_nodes survey := survey.nodes_tier _ r
  explanation_view survey := survey.view_tier _ r
  metadataTier_view survey := survey.view_tier _ r

end Result

/-! ## Declarations -/

namespace Declaration

variable {τ : Type} [Metadata τ]

/-- The declarations that are made from values or from a statement, or
that declare nothing. -/
inductive Regular : Declaration τ → Prop where
  | forwarding (statement : String) (style : Notation) :
      Regular (forwarding statement style)
  | ofValues (statement : String) (values : List τ) (style : Notation)
      (satisfied : Bool) : Regular (ofValues statement values style satisfied)
  | fallback (statement : String) (style : Notation) (satisfied : Bool) :
      Regular (fallback statement style satisfied)

/-- If every statement makes a value, then assertions are declared where
values are. -/
theorem Regular.isEmpty_eq
    (hmakes : ∀ statement, (Metadata.fromStatement (τ := τ) statement).isSome)
    {declaration : Declaration τ} (h : declaration.Regular) :
    declaration.assertions.isEmpty = declaration.values.isEmpty := by
  cases h with
  | forwarding statement style => rfl
  | ofValues statement values style satisfied =>
    cases values with
    | nil => rfl
    | cons value values =>
      have hassertions := assertions_ofValues_ne_nil
        (List.cons_ne_nil value values) statement style satisfied
      exact List.isEmpty_eq_false_iff.2 hassertions
  | fallback statement style satisfied =>
    obtain ⟨value, hvalue⟩ := Option.isSome_iff_exists.1
      (hmakes (style.fallbackAssertion statement satisfied))
    rw [Declaration.fallback, hvalue]
    rfl

end Declaration

/-- Texts are their own assertions. -/
theorem assertionsFor_texts {texts : List String} (h : texts ≠ [])
    (fallback : String) : assertionsFor texts fallback = texts := by
  have hmapM : texts.mapM (m := Option) Metadata.asAssertion = some texts := by
    have hpure := List.mapM_pure (m := Option) (f := id) (l := texts)
    rwa [List.map_id] at hpure
  rw [assertionsFor, hmapM]
  cases texts with
  | nil => exact absurd rfl h
  | cons text texts => rfl

/-- Texts are declared as they are. -/
theorem Declaration.Regular.assertions_eq {declaration : Declaration String}
    (h : declaration.Regular) :
    declaration.assertions = declaration.values := by
  cases h with
  | forwarding statement style => rfl
  | ofValues statement values style satisfied =>
    cases values with
    | nil => rfl
    | cons value values =>
      exact assertionsFor_texts (List.cons_ne_nil value values) _
  | fallback statement style satisfied => rfl

/-! ## Evaluations -/

namespace Result

variable {τ : Type} [Metadata τ]

/-- Whether the result and everything below it declares regularly. -/
def Regular (r : Result τ) : Prop :=
  r.Everywhere fun finding => finding.toDeclaration.Regular

theorem regular_ofPositions {place : Place} {finding : Finding τ}
    {operands : List (Result τ)} {causes : List Nat}
    (h : finding.toDeclaration.Regular)
    (hoperands : ∀ operand ∈ operands, Regular operand) :
    Regular (ofPositions place finding operands causes) := by
  refine .intro h fun edges n hn => ?_
  cases edges with
  | operands => exact hoperands n hn
  | causes =>
    have hcause : n ∈ (ofPositions place finding operands causes).causes := hn
    exact hoperands n (mem_of_mem_causes_ofPositions hcause)

end Result

namespace Specification

variable {τ ν M : Type} [Metadata τ]

theorem regular_of_declare {heading : Heading}
    {branches : Option (Branches (Factory τ ν M))} {m : M} {satisfied : Bool}
    {underlying : Option (Result τ)} {declaration : Declaration τ}
    (h : (declare heading branches m satisfied underlying).outcome =
      .ok declaration) : declaration.Regular := by
  rw [declare_eq] at h
  rcases exists_of_declareBy h with ⟨-, rfl⟩ | ⟨-, values, -, -, rfl⟩
  · cases underlying with
    | none => exact .fallback ..
    | some r => exact .forwarding ..
  · split
    · exact .fallback ..
    · exact .ofValues ..

theorem regular_of_declareSnapshot {I : Type} {heading : Heading}
    {branches : Option (Branches (SnapshotFactory τ ν I))} {satisfied : Bool}
    {snapshot : Snapshot τ I} {declaration : Declaration τ}
    (h : (declareSnapshot heading branches satisfied snapshot).outcome =
      .ok declaration) : declaration.Regular := by
  rw [declareSnapshot_eq] at h
  rcases exists_of_declareBy h with ⟨-, rfl⟩ | ⟨-, values, -, -, rfl⟩
  · exact .fallback ..
  · exact .ofValues ..

theorem regular_wrapped {inner : Result τ} (h : inner.Regular)
    {declaration : Declaration τ} (hdeclaration : declaration.Regular)
    (place : Place) : Result.Regular (wrapped place inner declaration) := by
  refine .intro hdeclaration fun edges n hn => ?_
  cases edges <;> exact List.mem_singleton.1 hn ▸ h

/-- An evaluation declares regularly, if the results do that are handed out
by functions. -/
theorem regular_of_evaluate {s : Specification τ ν M}
    (hmakes : s.Makes Result.Regular) {place : Place} {m : M} {r : Result τ}
    (hr : (s.evaluate place m).outcome = .ok r) : r.Regular := by
  induction s generalizing place r with
  | atomic heading predicate branches =>
    obtain ⟨satisfied, -, declaration, hdeclaration, rfl⟩ :=
      evaluate_atomic_eq_ok_iff.1 hr
    refine .intro (regular_of_declare hdeclaration) fun edges n hn => ?_
    cases edges <;> cases hn
  | wrapper heading inner branches ih =>
    obtain ⟨result, hresult, declaration, hdeclaration, rfl⟩ :=
      evaluate_wrapper_eq_ok_iff.1 hr
    exact regular_wrapped (ih hmakes hresult)
      (regular_of_declare hdeclaration) place
  | computed heading function branches =>
    obtain ⟨result, hresult, declaration, hdeclaration, rfl⟩ :=
      evaluate_computed_eq_ok_iff.1 hr
    exact regular_wrapped (hmakes _ _ _ hresult)
      (regular_of_declare hdeclaration) place
  | composite heading op count operands ih =>
    obtain ⟨results, hresults, -, rfl⟩ := evaluate_composite_eq_ok_iff.1 hr
    refine Result.regular_ofPositions (.forwarding ..) fun operand hmem => ?_
    obtain ⟨i, -, hi⟩ := Traced.exists_of_mem_runUntil _ _ hresults
      (List.mem_of_mem_take hmem)
    exact ih i (hmakes i) hi
  | quantified heading quantifier item branches ih =>
    obtain ⟨results, hresults, declaration, hdeclaration, rfl⟩ :=
      evaluate_quantified_eq_ok_iff.1 hr
    refine Result.regular_ofPositions
      (regular_of_declareSnapshot hdeclaration) fun operand hmem => ?_
    obtain ⟨entry, -, hentry⟩ :=
      Traced.exists_of_mem_runUntil _ _ hresults hmem
    exact ih hmakes hentry

end Specification

/-! ## The result -/

namespace Result

/-- Where texts are declared, both tiers are one. -/
theorem Regular.explanation_eq {r : Result String} (h : r.Regular) :
    r.explanation = r.metadataTier := by
  refine Node.map_congr (h.imp fun finding hregular => ?_)
  exact congrArg (Prod.mk finding) hregular.assertions_eq

theorem Regular.view_eq {r : Result String} (h : r.Regular)
    (survey : Node.Survey) :
    survey.view (fun finding => finding.values) r =
      survey.view (fun finding => finding.assertions) r := by
  have hshape := r.sameShape
  rw [← hshape.metadataTier_view, ← hshape.explanation_view, h.explanation_eq]

end Result

namespace Specification

/-- The tiers of an evaluated specification have one shape.  If every
statement makes a value, the same nodes declare assertions and values, so
that all views visit the same nodes.  Texts are their own assertions, so
that all views show the same once repeats are left out. -/
theorem evaluate_parallel {ν M : Type} :
    (∀ (τ : Type) [Metadata τ] [DecidableEq τ] (s : Specification τ ν M)
        (place : Place) (m : M) (r : Result τ),
      s.Makes Result.Regular → (s.evaluate place m).outcome = .ok r →
        r.SameShape ∧
          ((∀ statement,
              (Metadata.fromStatement (τ := τ) statement).isSome) →
            (r.Everywhere fun finding =>
              finding.assertions = [] ↔ finding.values = []) ∧
            ∀ survey : Node.Survey,
              survey.nodes (fun finding => finding.assertions) r =
                survey.nodes (fun finding => finding.values) r)) ∧
      ∀ (s : Specification String ν M) (place : Place) (m : M)
        (r : Result String),
        s.Makes Result.Regular → (s.evaluate place m).outcome = .ok r →
          (r.Everywhere fun finding =>
            finding.values = finding.assertions) ∧
          (∀ survey : Node.Survey,
            distinct (survey.view (fun finding => finding.values) r) =
              distinct (survey.view (fun finding => finding.assertions) r)) ∧
          distinct r.metadata = r.assertions := by
  constructor
  · intro τ _ _ s place m r hmakes hr
    refine ⟨r.sameShape, fun hsome => ?_⟩
    have hregular := regular_of_evaluate hmakes hr
    have hdeclares : r.Everywhere fun finding =>
        finding.assertions.isEmpty = finding.values.isEmpty :=
      hregular.imp fun finding h => h.isEmpty_eq hsome
    refine ⟨hdeclares.imp fun finding h => ?_, Node.Survey.nodes_congr hdeclares⟩
    rw [← List.isEmpty_iff, ← List.isEmpty_iff, h]
  · intro s place m r hmakes hr
    have hregular := regular_of_evaluate hmakes hr
    refine ⟨hregular.imp fun finding h => h.assertions_eq.symm,
      fun survey => congrArg distinct (hregular.view_eq survey), ?_⟩
    exact congrArg distinct (hregular.view_eq .values)

/-- Even numbers say so, and other ones forward what they negate. -/
def evenOrForward : Specification String Unit Nat :=
  .wrapper ⟨.root 2, "even", {}⟩
    (negation (.root 1)
      (.atomic ⟨.root 0, "odd", {}⟩ (fun n => pure (n % 2 == 1)) none))
    (some ⟨.constant "is even", .constants []⟩)

/-- Whether any of some numbers is even. -/
def anyEven : Specification String Unit (List Nat) :=
  .quantified ⟨.root 3, "some even", {}⟩ .any evenOrForward
    (some ⟨.constants [], .constants ["none even", "all odd"]⟩)

/-- Two numbers are judged, and the tiers of the judgement go together. -/
theorem evaluate_parallel_anyEven :
    anyEven.Makes Result.Regular ∧
      ∃ r, (anyEven.evaluate (.root 4) [2, 3]).outcome = .ok r ∧
        r.SameShape ∧
        (∀ survey : Node.Survey,
          survey.nodes (fun finding => finding.assertions) r =
            survey.nodes (fun finding => finding.values) r) ∧
        distinct r.metadata = r.assertions := by
  have hmakes : anyEven.Makes Result.Regular := by
    intro i
    match i with
    | ⟨0, _⟩ => trivial
  obtain ⟨r, hr⟩ :
      ∃ r, (anyEven.evaluate (.root 4) [2, 3]).outcome = .ok r := ⟨_, rfl⟩
  have hshapes := evaluate_parallel.1 String anyEven _ _ r hmakes hr
  have htexts := evaluate_parallel.2 anyEven _ _ r hmakes hr
  exact ⟨hmakes, r, hr, hshapes.1, (hshapes.2 fun _ => rfl).2, htexts.2.2⟩

end Specification

end Rationale
