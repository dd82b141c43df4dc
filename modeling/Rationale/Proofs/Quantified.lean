import Rationale.Proofs.Attribution
import Rationale.Proofs.Determined
import Rationale.Proofs.Parallel

/-!
# Quantifiers as operators

A quantifier over items and an operator over their results are judged by
rules of their own.  This module says that the rules are the same: all items
are satisfied if their conjunction is, any of them is if their disjunction
is, and the items that explain the one explain the other.  There are three
groups.

* Selections.  `Quantifier.select_all` and `Quantifier.select_any` compare
  what a quantifier selects with what an operator determines.
* Results.  `Result.AgreesWith` is what a quantifier and an operator have in
  common over the same results.  The quantifier declares its statement, so
  its explanation is compared one level down.
* Evaluations.  A quantifier without factories evaluates its items and
  judges their results.
-/

namespace Rationale

/-! ## Selections -/

namespace Quantifier

theorem isEmpty_positionsOf_false (outcomes : List Bool) :
    (positionsOf false outcomes).isEmpty = outcomes.all id := by
  rw [Bool.eq_iff_iff, List.isEmpty_iff, positionsOf_eq_nil_iff,
    List.all_eq_true]
  constructor
  · intro h outcome houtcome
    by_contra hne
    rw [id, Bool.not_eq_true] at hne
    exact h (hne ▸ houtcome)
  · intro h hmem
    cases h false hmem

theorem isEmpty_positionsOf_true (outcomes : List Bool) :
    (positionsOf true outcomes).isEmpty = !outcomes.any id := by
  rw [Bool.eq_iff_iff, List.isEmpty_iff, positionsOf_eq_nil_iff]
  simp

/-- All items are satisfied if and because their conjunction is. -/
theorem select_all (outcomes : List Bool) :
    Quantifier.all.select outcomes =
      ⟨(determine .and outcomes).satisfied,
        (determine .and outcomes).causes⟩ := by
  rw [determine_eq, Operator.upTo_settles_eq_self rfl]
  simp only [select, Operator.holds, Operator.causes]
  by_cases h : outcomes.all id
  · simp [isEmpty_positionsOf_false, h]
  · simp [isEmpty_positionsOf_false, h]

/-- Any item is satisfied if and because the disjunction of all is. -/
theorem select_any (outcomes : List Bool) :
    Quantifier.any.select outcomes =
      ⟨(determine .or outcomes).satisfied,
        (determine .or outcomes).causes⟩ := by
  rw [determine_eq, Operator.upTo_settles_eq_self rfl]
  simp only [select, Operator.holds, Operator.causes]
  by_cases h : outcomes.any id
  · simp [isEmpty_positionsOf_true, h]
  · simp [isEmpty_positionsOf_true, h]

/-- None of the items is satisfied unless any is, for the same reason. -/
theorem select_none (outcomes : List Bool) :
    Quantifier.none.select outcomes =
      ⟨!(Quantifier.any.select outcomes).satisfied,
        (Quantifier.any.select outcomes).causes⟩ := by
  simp only [select, Bool.not_not]

end Quantifier

/-! ## Results -/

namespace Result

variable {τ : Type}

/-- Whether two results over some results have the same outcome, explained
by those at the same positions. -/
structure SameCauses (rs : List (Result τ)) (a b : Result τ) : Prop where
  left : a.operands = rs
  right : b.operands = rs
  positions : ∃ positions : List Nat, positions.Pairwise (· < ·) ∧
    a.CausedAt positions ∧ b.CausedAt positions

theorem CausedAt.causes_eq {a b : Result τ} {positions : List Nat}
    (ha : a.CausedAt positions) (hb : b.CausedAt positions)
    (hoperands : a.operands = b.operands) : a.causes = b.causes := by
  unfold CausedAt at ha hb
  rw [hoperands, hb] at ha
  exact (List.map_injective_iff.2 (Option.some_injective _) ha).symm

/-- What a declaring result has in common with one that only forwards: the
outcome, the operands and the causes, and one level down what the other one
is explained by. -/
structure AgreesWith [DecidableEq τ] (rs : List (Result τ))
    (a b : Result τ) : Prop where
  satisfied : a.satisfied = b.satisfied
  causes : SameCauses rs a b
  explanation : a.explanation.subValues Prod.snd =
    b.explanation.values Prod.snd
  metadata : a.metadataTier.subValues Prod.snd =
    b.metadataTier.values Prod.snd

/-- An operator is applied to as many results as it takes. -/
theorem compose_eq_applied (place : Place) {op : Operator}
    {rs : List (Result τ)} (haccepts : op.accepts rs.length) :
    ∃ statement style,
      compose place op rs = .ok (applied place op rs statement style) :=
  ⟨_, _, fromOperator_eq_ok_iff.2 ⟨haccepts, rfl⟩⟩

/-- A result with the causes of a forwarding one is explained one level down
like that one. -/
theorem agreesWith_of_causes [DecidableEq τ] {rs : List (Result τ)}
    {a b : Result τ} (hsatisfied : a.satisfied = b.satisfied)
    (hcauses : SameCauses rs a b) (hvalues : b.label.values = [])
    (hassertions : b.label.assertions = []) : AgreesWith rs a b := by
  obtain ⟨positions, -, ha, hb⟩ := hcauses.positions
  have hsame : a.causes = b.causes :=
    ha.causes_eq hb (hcauses.left.trans hcauses.right.symm)
  have hforward {V : Type} {own : Finding τ → List V}
      (hown : own b.label = []) : a.subValues own = b.values own := by
    have hpass : ¬Node.declares own b := by simp [Node.declares, hown]
    rw [Node.values_eq_subValues own hpass]
    simp only [Node.subValues, hsame]
  refine ⟨hsatisfied, hcauses, ?_, ?_⟩
  · have ha := a.sameShape.explanation_view .subValues
    have hb := b.sameShape.explanation_view .values
    simp only [Node.Survey.view] at ha hb
    rw [ha, hb, hforward hassertions]
  · have ha := a.sameShape.metadataTier_view .subValues
    have hb := b.sameShape.metadataTier_view .values
    simp only [Node.Survey.view] at ha hb
    rw [ha, hb, hforward hvalues]

end Result

namespace Specification

variable {τ : Type}

/-- A quantifier that selects what an operator determines. -/
theorem sameCauses_judged {quantifier : Quantifier} {op : Operator}
    (hop : op.settledBy = none) {rs : List (Result τ)}
    (hselect : (quantifier.select (rs.map Result.satisfied)).causes =
      (determine op (rs.map Result.satisfied)).causes)
    (place place' : Place) (declaration : Declaration τ) (statement : String)
    (style : Notation) :
    Result.SameCauses rs (judged place quantifier rs declaration)
      (Result.applied place' op rs statement style) where
  left := rfl
  right := Result.operands_applied hop ..
  positions := by
    refine ⟨_, quantifier.pairwise_causes (rs.map Result.satisfied), ?_, ?_⟩
    · exact Result.causedAt_ofPositions lt_of_mem_select ..
    · rw [hselect]
      exact Result.causedAt_applied ..

/-- Quantifiers that select the same items. -/
theorem sameCauses_judged_judged {quantifier quantifier' : Quantifier}
    {rs : List (Result τ)}
    (hselect : (quantifier.select (rs.map Result.satisfied)).causes =
      (quantifier'.select (rs.map Result.satisfied)).causes)
    (place place' : Place) (declaration declaration' : Declaration τ) :
    Result.SameCauses rs (judged place quantifier rs declaration)
      (judged place' quantifier' rs declaration') where
  left := rfl
  right := rfl
  positions := by
    refine ⟨_, quantifier.pairwise_causes (rs.map Result.satisfied), ?_, ?_⟩
    · exact Result.causedAt_ofPositions lt_of_mem_select ..
    · rw [hselect]
      exact Result.causedAt_ofPositions lt_of_mem_select ..

theorem agreesWith_judged [DecidableEq τ] {quantifier : Quantifier}
    {op : Operator} (hop : op.settledBy = none) {rs : List (Result τ)}
    (hselect : quantifier.select (rs.map Result.satisfied) =
      ⟨(determine op (rs.map Result.satisfied)).satisfied,
        (determine op (rs.map Result.satisfied)).causes⟩)
    (place place' : Place) (declaration : Declaration τ) (statement : String)
    (style : Notation) :
    Result.AgreesWith rs (judged place quantifier rs declaration)
      (Result.applied place' op rs statement style) := by
  apply Result.agreesWith_of_causes
  · have hsatisfied := congrArg Selection.satisfied hselect
    rw [Result.applied_satisfied]
    rw [determine_eq] at hsatisfied
    exact hsatisfied
  · exact sameCauses_judged hop (congrArg Selection.causes hselect) ..
  · rw [Result.applied_label]
    rfl
  · rw [Result.applied_label]
    rfl

/-! ## Evaluations -/

variable {ν I : Type} [Metadata τ]

/-- A quantifier that is created without factories judges the results of its
items. -/
theorem evaluate_of_create {item : Specification τ ν I}
    {quantifier : Quantifier} {made place : Place} {statement : String}
    {s : Specification τ ν (List I)}
    (hcreate : QuantifierDraft.create ⟨item, quantifier, none, none⟩ made
      statement = .ok s)
    {models : List I} {rs : List (Result τ)}
    (hrs : itemResults item place models = .ok rs) :
    ∃ declaration, (s.evaluate place models).outcome =
      .ok (judged place quantifier rs declaration) := by
  obtain ⟨-, rfl⟩ := checked_eq_ok_iff.1 hcreate
  unfold itemResults at hrs
  rw [← Traced.runAll_outcome] at hrs
  exact ⟨_, evaluate_quantified_eq_ok_iff.2 ⟨rs, hrs, _, rfl, rfl⟩⟩

/-- A list of answers has an answer for each member. -/
theorem exists_mapM_eq_ok {ε α β : Type} {f : α → Except ε β} {xs : List α}
    (h : ∀ x ∈ xs, ∃ y, f x = .ok y) :
    ∃ ys, xs.mapM f = .ok ys ∧ ys.length = xs.length := by
  induction xs with
  | nil => exact ⟨[], rfl, rfl⟩
  | cons x rest ih =>
    obtain ⟨y, hy⟩ := h x List.mem_cons_self
    obtain ⟨ys, hys, hlength⟩ := ih fun z hz => h z (List.mem_cons_of_mem x hz)
    refine ⟨y :: ys, ?_, by simp [hlength]⟩
    rw [List.mapM_cons, hy, hys]
    rfl

/-- Items on which no callback fails all have results. -/
theorem exists_itemResults {item : Specification τ ν I} (hitem : item.Built)
    {position place : Place} {models : List I}
    (hcalls : ∀ entry ∈ models.zipIdx, ∀ call ∈
      item.calls position (place.child entry.2) entry.1,
      call.failure = none) :
    ∃ rs, itemResults item place models = .ok rs ∧
      rs.length = models.length := by
  have hitems : ∀ entry ∈ models.zipIdx, ∃ r,
      (item.evaluate (place.child entry.2) entry.1).outcome = .ok r := by
    intro entry hentry
    apply (hitem.evaluate_eq_ok_iff_calls position _ _).2
    exact hcalls entry hentry
  obtain ⟨rs, hrs, hlength⟩ := exists_mapM_eq_ok hitems
  refine ⟨rs, hrs, ?_⟩
  rw [hlength, List.length_zipIdx]

/-- A quantifier that no factory declares for says of its items what an
operator says of their results: all are satisfied like their conjunction is,
any like their disjunction is, and none unless any is. -/
theorem quantified_agreesWith [DecidableEq τ] {item : Specification τ ν I}
    (hitem : item.Built) {madeAll madeAny madeNone : Place}
    {textAll textAny textNone : String}
    {sAll sAny sNone : Specification τ ν (List I)}
    (hall : QuantifierDraft.create ⟨item, .all, none, none⟩ madeAll textAll =
      .ok sAll)
    (hany : QuantifierDraft.create ⟨item, .any, none, none⟩ madeAny textAny =
      .ok sAny)
    (hnone : QuantifierDraft.create ⟨item, .none, none, none⟩ madeNone
      textNone = .ok sNone)
    {models : List I} (hmodels : models ≠ []) {position place : Place}
    (hcalls : ∀ entry ∈ models.zipIdx, ∀ call ∈
      item.calls position (place.child entry.2) entry.1, call.failure = none)
    (place' : Place) :
    ∃ rs conjunction disjunction rAll rAny rNone,
      itemResults item place models = .ok rs ∧
      Result.allOf place' rs = .ok conjunction ∧
      Result.anyOf place' rs = .ok disjunction ∧
      (sAll.evaluate place models).outcome = .ok rAll ∧
      (sAny.evaluate place models).outcome = .ok rAny ∧
      (sNone.evaluate place models).outcome = .ok rNone ∧
      Result.AgreesWith rs rAll conjunction ∧
      Result.AgreesWith rs rAny disjunction ∧
      rNone.satisfied = !rAny.satisfied ∧
      Result.SameCauses rs rNone rAny := by
  obtain ⟨rs, hrs, hlength⟩ := exists_itemResults hitem hcalls
  have hpos : 0 < rs.length := hlength ▸ List.length_pos_iff.2 hmodels
  have hand : Operator.and.accepts rs.length := decide_eq_true hpos
  have hor : Operator.or.accepts rs.length := decide_eq_true hpos
  obtain ⟨_, _, hconjunction⟩ := Result.compose_eq_applied place' hand
  obtain ⟨_, _, hdisjunction⟩ := Result.compose_eq_applied place' hor
  obtain ⟨declarationAll, hrAll⟩ := evaluate_of_create hall hrs
  obtain ⟨declarationAny, hrAny⟩ := evaluate_of_create hany hrs
  obtain ⟨declarationNone, hrNone⟩ := evaluate_of_create hnone hrs
  refine ⟨rs, _, _, _, _, _, hrs, hconjunction, hdisjunction, hrAll, hrAny,
    hrNone, ?_, ?_, ?_, ?_⟩
  · exact agreesWith_judged rfl (Quantifier.select_all _) ..
  · exact agreesWith_judged rfl (Quantifier.select_any _) ..
  · exact congrArg Selection.satisfied (Quantifier.select_none _)
  · apply sameCauses_judged_judged
    rw [Quantifier.select_none]

/-- Whether a number is not odd. -/
def notOdd : Specification String Unit Nat :=
  negation (.root 1)
    (.atomic ⟨.root 0, "odd", {}⟩ (fun n => pure (n % 2 == 1)) none)

/-- Of two numbers one is odd, and it explains why not all of them are not
odd. -/
theorem quantified_agreesWith_notOdd :
    notOdd.Built ∧ [2, 3] ≠ ([] : List Nat) ∧
      (∀ entry ∈ [2, 3].zipIdx, ∀ call ∈
        notOdd.calls (.root 2) ((Place.root 3).child entry.2) entry.1,
        call.failure = none) ∧
      ∃ rs conjunction rAll,
        ((quantified ⟨.root 4, "none odd", {}⟩ .all notOdd none).evaluate
          (.root 3) [2, 3]).outcome = .ok rAll ∧
        Result.allOf (.root 5) rs = .ok conjunction ∧
        Result.AgreesWith rs rAll conjunction ∧
        rAll.satisfied = false := by
  have hbuilt : notOdd.Built := .negation _ (.atomic (by decide) _)
  have hcalls : ∀ entry ∈ [2, 3].zipIdx, ∀ call ∈
      notOdd.calls (.root 2) ((Place.root 3).child entry.2) entry.1,
      call.failure = none := by decide
  have hfault : (QuantifierDraft.mk notOdd .all none none).fault? "none odd" =
      none := by decide
  have hcreate (quantifier : Quantifier) :
      QuantifierDraft.create ⟨notOdd, quantifier, none, none⟩ (.root 4)
        "none odd" =
      .ok (quantified ⟨.root 4, "none odd", {}⟩ quantifier notOdd none) :=
    checked_eq_ok_iff.2 ⟨hfault, rfl⟩
  obtain ⟨rs, conjunction, -, rAll, -, -, -, hconjunction, -, hrAll, -, -,
    hagrees, -⟩ := quantified_agreesWith hbuilt (hcreate .all) (hcreate .any)
      (hcreate .none) (List.cons_ne_nil 2 [3]) hcalls (.root 5)
  refine ⟨hbuilt, by decide, hcalls, rs, conjunction, rAll, hrAll,
    hconjunction, hagrees, ?_⟩
  obtain rfl := Except.ok.inj hrAll
  rfl

end Specification

end Rationale
