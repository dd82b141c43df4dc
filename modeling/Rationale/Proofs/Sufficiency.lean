import Rationale.Proofs.Built
import Rationale.Proofs.Evaluation
import Rationale.Proofs.Node

/-!
# Sufficiency of a whole explanation

The predicates that are found along causes are enough for the outcome of
an evaluation.  On a second model on which they say the same, everything
else may change, even how far an operator looks, and the outcome stays.
There are four groups.

* The specifications in question.  `Specification.Infallible` ones are made
  of predicates, and no callback of theirs fails.
* Truth.  `Specification.truth` is the outcome without an order of
  evaluation, and `Infallible.evaluate_eq_ok` says that an evaluation finds
  it.
* Stems.  `Specification.Asks` names the predicate behind an atomic result,
  with what it says of two models.  `Asks.unique` and
  `Infallible.exists_asks` say that there is exactly one.
* Sufficiency.  `Infallible.truth_eq` is the induction over the
  specification, which is then stated for evaluations.
-/

namespace Rationale

namespace Specification

variable {τ ν : Type} {M : Type}

/-! ## The specifications in question -/

/-- The specification is made of predicates, and neither they nor the
factories ever fail. -/
def Infallible : {M : Type} → Specification τ ν M → Prop
  | _, .atomic _ predicate branches =>
    (∀ m, ∃ satisfied, (predicate m).outcome = .ok satisfied) ∧
      ∀ pair ∈ branches, ∀ satisfied m, ∃ values,
        ((pair.taken satisfied).resolve m none).outcome = .ok values
  | _, .wrapper _ inner branches =>
    inner.Infallible ∧
      ∀ pair ∈ branches, ∀ satisfied m result, ∃ values,
        ((pair.taken satisfied).resolve m (some result)).outcome = .ok values
  | _, .computed .. => False
  | _, .composite _ _ _ operands => ∀ i, (operands i).Infallible
  | _, .quantified _ _ item branches =>
    item.Infallible ∧
      ∀ pair ∈ branches, ∀ satisfied snapshot, ∃ values,
        ((pair.taken satisfied).resolve snapshot).outcome = .ok values

/-- Two models of one shape have equally many items wherever the
specification quantifies. -/
def SameShape : {M : Type} → Specification τ ν M → M → M → Prop
  | _, .atomic .., _, _ => True
  | _, .wrapper _ inner _, m, m' => inner.SameShape m m'
  | _, .computed .., _, _ => True
  | _, .composite _ _ _ operands, m, m' => ∀ i, (operands i).SameShape m m'
  | _, .quantified _ _ item _, models, models' =>
    List.Forall₂ (fun m m' => item.SameShape m m') models models'

/-! ## Truth -/

/-- Whether the specification holds of a model.  A function of results is
no proposition of its own and counts as false. -/
def truth : {M : Type} → Specification τ ν M → M → Bool
  | _, .atomic _ predicate _, m => (predicate m).outcome.toOption.getD false
  | _, .wrapper _ inner _, m => inner.truth m
  | _, .computed .., _ => false
  | _, .composite _ op _ operands, m =>
    op.holds (List.ofFn fun i => (operands i).truth m)
  | _, .quantified _ quantifier item _, models =>
    (quantifier.select (models.map fun m => item.truth m)).satisfied

/-! ## Stems -/

/-- Whether evaluating the specification at `p` runs a predicate at the
place `q`, where it says `x` of its part of the first model and `x'` of the
corresponding part of the second one. -/
def Asks : {M : Type} → Specification τ ν M → Place → M → M → Place →
    Except Raised Bool → Except Raised Bool → Prop
  | _, .atomic _ predicate _, p, m, m', q, x, x' =>
    q = p ∧ (predicate m).outcome = x ∧ (predicate m').outcome = x'
  | _, .wrapper _ inner _, p, m, m', q, x, x' => inner.Asks p m m' q x x'
  | _, .computed .., _, _, _, _, _, _ => False
  | _, .composite _ _ _ operands, p, m, m', q, x, x' =>
    ∃ i, (operands i).Asks (p.child i) m m' q x x'
  | _, .quantified _ _ item _, p, models, models', q, x, x' =>
    ∃ (i : Nat) (m m' : _), models[i]? = some m ∧ models'[i]? = some m' ∧
      item.Asks (p.child i) m m' q x x'

section Stems

variable {s : Specification τ ν M} {p q : Place} {m m' : M}
  {x x' y y' : Except Raised Bool}

/-- Predicates are run at the place of the evaluation or below it. -/
theorem Asks.contains (h : s.Asks p m m' q x x') : p.Contains q := by
  induction s generalizing p with
  | atomic heading predicate branches =>
    rw [h.1]
    exact p.contains_refl
  | wrapper heading inner branches ih => exact ih h
  | computed heading function branches => exact h.elim
  | composite heading op count operands ih =>
    obtain ⟨i, hi⟩ := h
    exact (p.contains_child i).trans (ih i hi)
  | quantified heading quantifier item branches ih =>
    obtain ⟨i, _, _, _, _, hi⟩ := h
    exact (p.contains_child i).trans (ih hi)

/-- At most one predicate is run at one place. -/
theorem Asks.unique (h : s.Asks p m m' q x x') (h' : s.Asks p m m' q y y') :
    x = y ∧ x' = y' := by
  induction s generalizing p with
  | atomic heading predicate branches =>
    exact ⟨h.2.1.symm.trans h'.2.1, h.2.2.symm.trans h'.2.2⟩
  | wrapper heading inner branches ih => exact ih h h'
  | computed heading function branches => exact h.elim
  | composite heading op count operands ih =>
    obtain ⟨i, hi⟩ := h
    obtain ⟨j, hj⟩ := h'
    by_cases hij : i = j
    · subst hij
      exact ih i hi hj
    · have hne : (i : Nat) ≠ j := fun heq => hij (Fin.ext heq)
      exact absurd hj.contains ((p.apart_child hne).not_contains hi.contains)
  | quantified heading quantifier item branches ih =>
    obtain ⟨i, _, _, hm, hm', hi⟩ := h
    obtain ⟨j, _, _, hn, hn', hj⟩ := h'
    by_cases hij : i = j
    · subst hij
      obtain rfl := Option.some.inj (hm.symm.trans hn)
      obtain rfl := Option.some.inj (hm'.symm.trans hn')
      exact ih hi hj
    · exact absurd hj.contains ((p.apart_child hij).not_contains hi.contains)

/-- Models of one shape have their items at the same positions. -/
theorem SameShape.exists_getElem? {I : Type} {heading : Heading}
    {quantifier : Quantifier} {item : Specification τ ν I}
    {branches : Option (Branches (SnapshotFactory τ ν I))}
    {models models' : List I}
    (h : (quantified heading quantifier item branches).SameShape models models')
    {i : Nat} {m : I} (hm : models[i]? = some m) :
    ∃ m', models'[i]? = some m' ∧ item.SameShape m m' := by
  obtain ⟨hlength, hparts⟩ := List.forall₂_iff_get.1 h
  obtain ⟨hi, rfl⟩ := List.getElem?_eq_some_iff.1 hm
  have hi' : i < models'.length := hlength ▸ hi
  exact ⟨models'[i], List.getElem?_eq_getElem hi', hparts i hi hi'⟩

/-- Whether every atomic result that a result finds along causes stems from
a predicate that says the same of both models. -/
def AgreesOn (s : Specification τ ν M) (p : Place) (m m' : M)
    (r : Result τ) : Prop :=
  ∀ n, r.Reaches .causes n → n.label.kind = .atomic →
    ∃ x, s.Asks p m m' n.place x x

/-- Agreement passes to a cause, if what the cause's part of the
specification asks is asked by the whole. -/
theorem AgreesOn.of_cause {I : Type} {s : Specification τ ν M}
    {part : Specification τ ν I} {q : Place} {m m' : M} {a a' : I}
    {r cause : Result τ} (hagrees : s.AgreesOn p m m' r)
    (hcause : cause ∈ r.causes)
    (hasks : ∀ {n : Place} {x x' : Except Raised Bool},
      part.Asks q a a' n x x' → s.Asks p m m' n x x')
    (hstems : ∀ n : Result τ, cause.Reaches .causes n →
      n.label.kind = .atomic →
        ∃ x', part.Asks q a a' n.place (.ok n.satisfied) x') :
    part.AgreesOn q a a' cause := by
  intro n hn hatomic
  obtain ⟨x, hx⟩ := hagrees n (.step hcause hn) hatomic
  obtain ⟨x', hx'⟩ := hstems n hn hatomic
  obtain ⟨rfl, rfl⟩ := (hasks hx').unique hx
  exact ⟨_, hx'⟩

end Stems

/-! ## Evaluations that find the truth -/

variable [Metadata τ]

theorem exists_declare_eq_ok (heading : Heading)
    {branches : Option (Branches (Factory τ ν M))} {m : M} {satisfied : Bool}
    {underlying : Option (Result τ)}
    (h : ∀ pair ∈ branches, ∃ values,
      ((pair.taken satisfied).resolve m underlying).outcome = .ok values) :
    ∃ declaration,
      (declare heading branches m satisfied underlying).outcome =
        .ok declaration := by
  rw [declare_eq]
  exact exists_declareBy_eq_ok _ _ _ _ (Option.forall_mem_map.2 h)

theorem exists_declareSnapshot_eq_ok {I : Type} (heading : Heading)
    {branches : Option (Branches (SnapshotFactory τ ν I))} {satisfied : Bool}
    {snapshot : Snapshot τ I}
    (h : ∀ pair ∈ branches, ∃ values,
      ((pair.taken satisfied).resolve snapshot).outcome = .ok values) :
    ∃ declaration,
      (declareSnapshot heading branches satisfied snapshot).outcome =
        .ok declaration := by
  rw [declareSnapshot_eq]
  exact exists_declareBy_eq_ok _ _ _ _ (Option.forall_mem_map.2 h)

/-- The results of all items of a quantifier whose items all succeed. -/
theorem runAll_items {I : Type} {item : Specification τ ν I} {place : Place}
    {models : List I} {results : I × Nat → Result τ}
    (h : ∀ entry : I × Nat,
      (item.evaluate (place.child entry.2) entry.1).outcome =
        .ok (results entry)) :
    (Traced.runAll
      (fun entry : I × Nat => item.evaluate (place.child entry.2) entry.1)
      models.zipIdx).outcome = .ok (models.zipIdx.map results) := by
  rw [Traced.runAll, Traced.runUntil_of_ok _ _ fun entry _ => h entry,
    upTo_eq_self fun _ _ => rfl]

/-- An evaluation in which nothing fails finds the truth. -/
theorem Infallible.evaluate_eq_ok {s : Specification τ ν M}
    (h : s.Infallible) (hformed : s.WellFormed) (place : Place) (m : M) :
    ∃ r, (s.evaluate place m).outcome = .ok r ∧ r.satisfied = s.truth m := by
  induction s generalizing place with
  | atomic heading predicate branches =>
    obtain ⟨satisfied, hsatisfied⟩ := h.1 m
    obtain ⟨declaration, hdeclaration⟩ := exists_declare_eq_ok heading
      fun pair hpair => h.2 pair hpair satisfied m
    refine ⟨_, evaluate_atomic_eq_ok_iff.2
      ⟨satisfied, hsatisfied, declaration, hdeclaration, rfl⟩, ?_⟩
    rw [truth, hsatisfied]
    rfl
  | wrapper heading inner branches ih =>
    obtain ⟨result, hresult, hsatisfied⟩ := ih h.1 hformed place m
    obtain ⟨declaration, hdeclaration⟩ := exists_declare_eq_ok heading
      fun pair hpair =>
        h.2 pair hpair result.satisfied m result
    exact ⟨_, evaluate_wrapper_eq_ok_iff.2
      ⟨result, hresult, declaration, hdeclaration, rfl⟩, hsatisfied⟩
  | computed heading function branches => exact h.elim
  | composite heading op count operands ih =>
    choose results hresults hsatisfied using
      fun i => ih i (h i) (hformed.2.2 i) (place.child i) m
    refine ⟨_, evaluate_composite_of_ok hresults hformed.1, ?_⟩
    rw [Result.applied_satisfied, List.map_ofFn, truth]
    exact congrArg (fun f => op.holds (List.ofFn f)) (funext hsatisfied)
  | quantified heading quantifier item branches ih =>
    choose results hresults hsatisfied using
      fun entry => ih h.1 hformed (place.child (Prod.snd entry)) (Prod.fst entry)
    have houtcomes : (m.zipIdx.map results).map Result.satisfied =
        m.map fun m => item.truth m := by
      rw [List.map_map, ← List.zipIdx_map_fst 0 m, List.map_map,
        List.zipIdx_map_fst]
      exact List.map_congr_left fun entry _ => hsatisfied entry
    obtain ⟨declaration, hdeclaration⟩ := exists_declareSnapshot_eq_ok
      heading fun pair hpair => h.2 pair hpair _ _
    refine ⟨_, evaluate_quantified_eq_ok_iff.2
      ⟨_, runAll_items hresults, declaration, hdeclaration, rfl⟩, ?_⟩
    rw [truth, ← houtcomes]
    rfl

/-! ## Sufficiency -/

section Sufficiency

variable {heading : Heading} {p : Place} {r : Result τ}

/-- The causes of an operator are the results of the operands that its
outcome names. -/
theorem Infallible.exists_operand_results {op : Operator} {count : Nat}
    {operands : Fin count → Specification τ ν M} {m : M}
    (h : (composite heading op count operands).Infallible)
    (hformed : (composite heading op count operands).WellFormed)
    (hr : ((composite heading op count operands).evaluate p m).outcome =
      .ok r) :
    ∃ results : Fin count → Result τ,
      (∀ i, ((operands i).evaluate (p.child i) m).outcome =
        .ok (results i)) ∧
      r.label.kind = .applied op ∧
      (∀ b ∈ r.causes, ∃ i, results i = b) ∧
      ∀ i : Fin count,
        (i : Nat) ∈ (determine op
          (List.ofFn fun i => (operands i).truth m)).causes →
        results i ∈ r.causes := by
  choose results hresults hsatisfied using
    fun i => (h i).evaluate_eq_ok (hformed.2.2 i) (p.child i) m
  rw [evaluate_composite_of_ok hresults hformed.1] at hr
  obtain rfl := Except.ok.inj hr
  refine ⟨results, hresults, rfl, ?_, ?_⟩
  · intro b hb
    exact List.mem_ofFn.1 (Result.mem_of_mem_causes_applied hb)
  · intro i hi
    have houtcomes : (List.ofFn results).map Result.satisfied =
        List.ofFn fun i => (operands i).truth m := by
      rw [List.map_ofFn]
      exact congrArg List.ofFn (funext hsatisfied)
    rw [← houtcomes] at hi
    refine Result.mem_causes_applied hi ?_
    simp

/-- The causes of a quantifier are the results of the items that its
outcome names. -/
theorem Infallible.exists_item_results {I : Type} {quantifier : Quantifier}
    {item : Specification τ ν I}
    {branches : Option (Branches (SnapshotFactory τ ν I))} {models : List I}
    (h : item.Infallible) (hformed : item.WellFormed)
    (hr : ((quantified heading quantifier item branches).evaluate p
      models).outcome = .ok r) :
    ∃ results : I → Nat → Result τ,
      (∀ m i, (item.evaluate (p.child i) m).outcome = .ok (results m i)) ∧
      r.label.kind = .declared ∧
      (∀ b ∈ r.causes, ∃ i m, models[i]? = some m ∧ results m i = b) ∧
      ∀ i m, models[i]? = some m →
        i ∈ (quantifier.select
          (models.map fun m => item.truth m)).causes →
        results m i ∈ r.causes := by
  choose results hresults hsatisfied using
    fun m i => h.evaluate_eq_ok hformed (p.child i) m
  obtain ⟨found, hfound, declaration, -, rfl⟩ :=
    evaluate_quantified_eq_ok_iff.1 hr
  rw [runAll_items fun entry : I × Nat => hresults entry.1 entry.2] at hfound
  obtain rfl := Except.ok.inj hfound
  have hget (i : Nat) :
      (models.zipIdx.map fun entry => results entry.1 entry.2)[i]? =
        models[i]?.map fun m => results m i := by
    rw [List.getElem?_map, List.getElem?_zipIdx, Option.map_map]
    simp [Function.comp_def]
  refine ⟨results, hresults, rfl, ?_, ?_⟩
  · intro b hb
    obtain ⟨i, -, hi⟩ := List.mem_filterMap.1 hb
    rw [hget] at hi
    obtain ⟨m, hm, rfl⟩ := Option.map_eq_some_iff.1 hi
    exact ⟨i, m, hm, rfl⟩
  · intro i m hm hi
    have houtcomes : (models.zipIdx.map fun entry =>
        results entry.1 entry.2).map Result.satisfied =
          models.map fun m => item.truth m := by
      apply List.ext_getElem?
      intro j
      rw [List.getElem?_map, hget, Option.map_map, List.getElem?_map]
      simp [Function.comp_def, hsatisfied]
    rw [← houtcomes] at hi
    exact List.mem_filterMap.2 ⟨i, hi, by rw [hget, hm]; rfl⟩

/-- Every atomic result that is found along causes stems from a predicate,
which says of the model what the result says. -/
theorem Infallible.exists_asks {s : Specification τ ν M}
    (h : s.Infallible) (hformed : s.WellFormed) {m m' : M}
    (hshape : s.SameShape m m') {n : Result τ}
    (hr : (s.evaluate p m).outcome = .ok r) (hn : r.Reaches .causes n)
    (hatomic : n.label.kind = .atomic) :
    ∃ x', s.Asks p m m' n.place (.ok n.satisfied) x' := by
  induction s generalizing p r with
  | atomic heading predicate branches =>
    obtain ⟨satisfied, hsatisfied, declaration, -, rfl⟩ :=
      evaluate_atomic_eq_ok_iff.1 hr
    rcases Node.reaches_iff.1 hn with rfl | ⟨b, hb, -⟩
    · exact ⟨_, rfl, hsatisfied, rfl⟩
    · cases hb
  | wrapper heading inner branches ih =>
    obtain ⟨result, hresult, declaration, -, rfl⟩ :=
      evaluate_wrapper_eq_ok_iff.1 hr
    rcases Node.reaches_iff.1 hn with rfl | ⟨b, hb, hbn⟩
    · cases hatomic
    · obtain rfl := List.mem_singleton.1 hb
      exact ih h.1 hformed hshape hresult hbn
  | computed heading function branches => exact h.elim
  | composite heading op count operands ih =>
    obtain ⟨results, hresults, hkind, hcauses, -⟩ :=
      h.exists_operand_results hformed hr
    rcases Node.reaches_iff.1 hn with rfl | ⟨b, hb, hbn⟩
    · rw [hkind] at hatomic
      cases hatomic
    · obtain ⟨i, rfl⟩ := hcauses b hb
      obtain ⟨x', hx'⟩ :=
        ih i (h i) (hformed.2.2 i) (hshape i) (hresults i) hbn
      exact ⟨x', i, hx'⟩
  | quantified heading quantifier item branches ih =>
    obtain ⟨results, hresults, hkind, hcauses, -⟩ :=
      Infallible.exists_item_results h.1 hformed hr
    rcases Node.reaches_iff.1 hn with rfl | ⟨b, hb, hbn⟩
    · rw [hkind] at hatomic
      cases hatomic
    · obtain ⟨i, part, hpart, rfl⟩ := hcauses b hb
      obtain ⟨part', hpart', hsame⟩ := hshape.exists_getElem? hpart
      obtain ⟨x', hx'⟩ := ih h.1 hformed hsame (hresults part i) hbn
      exact ⟨x', i, part, part', hpart, hpart', hx'⟩

/-- Where the predicates behind the causes agree, the truth is the same. -/
theorem Infallible.truth_eq {s : Specification τ ν M} (h : s.Infallible)
    (hformed : s.WellFormed) {m m' : M} (hshape : s.SameShape m m')
    (hr : (s.evaluate p m).outcome = .ok r) (hagrees : s.AgreesOn p m m' r) :
    s.truth m' = s.truth m := by
  induction s generalizing p r with
  | atomic heading predicate branches =>
    obtain ⟨satisfied, hsatisfied, declaration, -, rfl⟩ :=
      evaluate_atomic_eq_ok_iff.1 hr
    obtain ⟨x, -, hx, hx'⟩ := hagrees _ .refl rfl
    rw [truth, truth, hx, hx']
  | wrapper heading inner branches ih =>
    obtain ⟨result, hresult, declaration, -, rfl⟩ :=
      evaluate_wrapper_eq_ok_iff.1 hr
    refine ih h.1 hformed hshape hresult fun n hn => ?_
    exact hagrees n (.step (List.mem_singleton.2 rfl) hn)
  | computed heading function branches => exact h.elim
  | composite heading op count operands ih =>
    obtain ⟨results, hresults, -, -, hcauses⟩ :=
      h.exists_operand_results hformed hr
    have hsame : ∀ i ∈ (determine op
          (List.ofFn fun i => (operands i).truth m)).causes,
        (List.ofFn fun i => (operands i).truth m')[i]? =
          (List.ofFn fun i => (operands i).truth m)[i]? := by
      intro i hi
      by_cases hlt : i < count
      · have hagrees' := hagrees.of_cause (hcauses ⟨i, hlt⟩ hi)
          (fun hx => ⟨⟨i, hlt⟩, hx⟩)
          fun n hn hatomic => (h _).exists_asks (hformed.2.2 _) (hshape _)
            (hresults ⟨i, hlt⟩) hn hatomic
        simp [hlt, ih ⟨i, hlt⟩ (h _) (hformed.2.2 _) (hshape _)
          (hresults _) hagrees']
      · simp [hlt]
    have hdetermined := Operator.satisfied_of_causes (by simp) hsame
    rwa [determine_eq, determine_eq] at hdetermined
  | quantified heading quantifier item branches ih =>
    obtain ⟨results, hresults, -, -, hcauses⟩ :=
      Infallible.exists_item_results h.1 hformed hr
    refine Quantifier.satisfied_of_causes ?_ fun i hi => ?_
    · rw [List.length_map, List.length_map]
      exact List.Forall₂.length_eq hshape |>.symm
    · rw [List.getElem?_map, List.getElem?_map]
      rcases hpart : (m : List _)[i]? with _ | part
      · rw [List.getElem?_eq_none_iff, List.Forall₂.length_eq hshape,
          ← List.getElem?_eq_none_iff] at hpart
        rw [hpart]
      · obtain ⟨part', hpart', hsame⟩ := hshape.exists_getElem? hpart
        have hagrees' := hagrees.of_cause (hcauses i part hpart hi)
          (fun hx => ⟨i, part, part', hpart, hpart', hx⟩)
          fun n hn hatomic => Infallible.exists_asks h.1 hformed hsame
            (hresults part i) hn hatomic
        rw [hpart']
        simp [ih h.1 hformed hsame (hresults part i) hagrees']

/-- What the causes of an evaluation ask is enough for its outcome.  Every
atomic result found along causes stems from exactly one predicate, and if
each of these predicates says the same of a second model of the same shape,
an evaluation there has the same outcome. -/
theorem satisfied_eq_of_causes {s : Specification τ ν M} (hbuilt : s.Built)
    (h : s.Infallible) {m m' : M} (hshape : s.SameShape m m')
    (p p' : Place) :
    ∃ r r', (s.evaluate p m).outcome = .ok r ∧
      (s.evaluate p' m').outcome = .ok r' ∧
      (∀ n : Result τ, r.Reaches .causes n → n.label.kind = .atomic →
        ∃! x', s.Asks p m m' n.place (.ok n.satisfied) x') ∧
      (s.AgreesOn p m m' r → r'.satisfied = r.satisfied) := by
  have hformed := hbuilt.wellFormed
  obtain ⟨r, hr, hsatisfied⟩ := h.evaluate_eq_ok hformed p m
  obtain ⟨r', hr', hsatisfied'⟩ := h.evaluate_eq_ok hformed p' m'
  refine ⟨r, r', hr, hr', ?_, fun hagrees => ?_⟩
  · intro n hn hatomic
    obtain ⟨x', hx'⟩ := h.exists_asks hformed hshape hr hn hatomic
    exact ⟨x', hx', fun y' hy' => (hy'.unique hx').2⟩
  · rw [hsatisfied, hsatisfied']
    exact h.truth_eq hformed hshape hr hagrees

end Sufficiency

/-- Lists that start with zero or else hold an even number. -/
def zeroOrEven : Specification String Unit (List Nat) :=
  combine (.root 0) .orElse
    (.atomic ⟨.root 1, "starts with zero", {}⟩
      (fun l => pure (l.head? == some 0)) none)
    (QuantifierDraft.toSpecification
      ⟨.atomic ⟨.root 2, "even", {}⟩ (fun n => pure (n % 2 == 0)) none,
        .any, none, none⟩ (.root 3) "holds an even number")

theorem built_zeroOrEven : zeroOrEven.Built :=
  .combine _ (by decide) (.atomic (by decide) _)
    (.quantified (.atomic (by decide) _) (by decide))

theorem infallible_zeroOrEven : zeroOrEven.Infallible := by
  refine Fin.forall_fin_two.2
    ⟨⟨fun m => ⟨_, rfl⟩, ?_⟩, ⟨fun m => ⟨_, rfl⟩, ?_⟩, ?_⟩
  all_goals exact fun _ h => nomatch h

theorem sameShape_zeroOrEven (n k n' k' : Nat) :
    zeroOrEven.SameShape [n, k] [n', k'] :=
  Fin.forall_fin_two.2 ⟨trivial, .cons trivial (.cons trivial .nil)⟩

/-- The second evaluation stops at the first operand and the first one does
not.  Both explain themselves with the first item alone. -/
theorem satisfied_eq_of_causes_zeroOrEven :
    zeroOrEven.Built ∧ zeroOrEven.Infallible ∧
      zeroOrEven.SameShape [4, 1] [0, 3] ∧
      ∃ r r', (zeroOrEven.evaluate (.root 4) [4, 1]).outcome = .ok r ∧
        (zeroOrEven.evaluate (.root 5) [0, 3]).outcome = .ok r' ∧
        zeroOrEven.AgreesOn (.root 4) [4, 1] [0, 3] r ∧
        r'.satisfied = r.satisfied := by
  refine ⟨built_zeroOrEven, infallible_zeroOrEven,
    sameShape_zeroOrEven 4 1 0 3, ?_⟩
  obtain ⟨r, r', hr, hr', -, hsame⟩ :=
    satisfied_eq_of_causes built_zeroOrEven infallible_zeroOrEven
      (sameShape_zeroOrEven 4 1 0 3) (.root 4) (.root 5)
  have hagrees : zeroOrEven.AgreesOn (.root 4) [4, 1] [0, 3] r := by
    obtain rfl := Except.ok.inj hr
    intro n hn hatomic
    rcases Node.reaches_iff.1 hn with rfl | ⟨b, hb, hbn⟩
    · cases hatomic
    obtain rfl := List.mem_singleton.1 hb
    rcases Node.reaches_iff.1 hbn with rfl | ⟨c, hc, hcn⟩
    · cases hatomic
    obtain rfl := List.mem_singleton.1 hc
    rcases Node.reaches_iff.1 hcn with rfl | ⟨d, hd, -⟩
    · have hlt : 1 < 2 := by decide
      exact ⟨.ok true, ⟨1, hlt⟩, 0, 4, 0, rfl, rfl, rfl, rfl, rfl⟩
    · cases hd
  exact ⟨r, r', hr, hr', hagrees, hsame hagrees⟩

end Specification

end Rationale
