import Rationale.Proofs.Determined
import Rationale.Proofs.Restyling
import Rationale.Proofs.Retold
import Rationale.Proofs.Runs
import Rationale.Proofs.Trace

/-!
# Restyled evaluations

What becomes of an evaluation if the specification is restyled first.  The
specification is evaluated at the same place, and its callbacks are blind to
notations.  There are three groups.

* Outcomes that are alike.  `Alike` says that two computations fail with the
  same error or give answers that are related, and passes from parts to the
  whole.
* The evaluation.  `alike_restyle` says that the restyled specification
  answers the retold result.
* The callbacks.  `callbacks_restyle` says that it invokes the same callbacks
  in the same order.

`restyling_keeps` and `restyle_describes` put them together: restyling is
lawful and decides nothing, and restyling before an evaluation is printing in
another notation afterwards.
-/

namespace Rationale

/-! ## Outcomes that are alike -/

/-- Whether two outcomes are the same failure or related answers. -/
inductive Alike {ε α β : Type} (P : α → β → Prop) :
    Except ε α → Except ε β → Prop where
  | error (e : ε) : Alike P (.error e) (.error e)
  | ok {a : α} {b : β} (answers : P a b) : Alike P (.ok a) (.ok b)

namespace Alike

variable {ν ε α β γ δ : Type} {P : α → β → Prop} {Q : γ → δ → Prop}

theorem of_eq {x y : Except ε α} (h : y = x) : Alike Eq x y := by
  subst h
  cases y with
  | error e => exact .error e
  | ok a => exact .ok rfl

theorem isOk_eq {x : Except ε α} {y : Except ε β} (h : Alike P x y) :
    y.isOk = x.isOk := by
  cases h <;> rfl

/-- Sequences are alike if their parts are. -/
theorem bind {x : Traced ν ε α} {y : Traced ν ε β} {f : α → Traced ν ε γ}
    {g : β → Traced ν ε δ} (h : Alike P x.outcome y.outcome)
    (hrest : ∀ a b, x.outcome = .ok a → P a b →
      Alike Q (f a).outcome (g b).outcome) :
    Alike Q (x >>= f).outcome (y >>= g).outcome := by
  cases hx : x.outcome with
  | error e =>
    cases hy : y.outcome with
    | error e' =>
      rw [hx, hy] at h
      cases h
      rw [Traced.bind_of_error hx, Traced.bind_of_error hy]
      exact .error e
    | ok b =>
      rw [hx, hy] at h
      cases h
  | ok a =>
    cases hy : y.outcome with
    | error e' =>
      rw [hx, hy] at h
      cases h
    | ok b =>
      rw [hx, hy] at h
      cases h with
      | ok answers =>
        rw [Traced.bind_of_ok hx, Traced.bind_of_ok hy]
        exact hrest a b hx answers

/-- Runs are alike if their members are. -/
theorem runUntil {ι : Type} {run : ι → Traced ν ε α} {run' : ι → Traced ν ε β}
    {stop : α → Bool} {stop' : β → Bool} {xs : List ι}
    (h : ∀ i ∈ xs, Alike P (run i).outcome (run' i).outcome)
    (hstop : ∀ a b, P a b → stop' b = stop a) :
    Alike (List.Forall₂ P) (Traced.runUntil stop run xs).outcome
      (Traced.runUntil stop' run' xs).outcome := by
  induction xs with
  | nil => exact .ok .nil
  | cons i rest ih =>
    rw [Traced.runUntil_cons, Traced.runUntil_cons]
    apply bind (h i List.mem_cons_self)
    intro a b _ hab
    rw [hstop a b hab]
    split
    · exact .ok (.cons hab .nil)
    · apply bind (ih fun j hj => h j (List.mem_cons_of_mem i hj))
      intro as bs _ hrest
      exact .ok (.cons hab hrest)

theorem raisedBy {x : Traced ν Raised α} {y : Traced ν Raised β}
    (h : Alike P x.outcome y.outcome) (statement : String) (role : Role) :
    Alike P (x.raisedBy statement role).outcome
      (y.raisedBy statement role).outcome := by
  obtain ⟨notes, outcome⟩ := x
  obtain ⟨notes', outcome'⟩ := y
  cases h with
  | error raised => exact .error _
  | ok answers => exact .ok answers

end Alike

/-! ## The evaluation -/

/-- Whether two headings show one statement, in notations that are related. -/
structure Heading.Restyled (R : Notation → Notation → Prop)
    (heading heading' : Heading) : Prop where
  statement : heading'.statement = heading.statement
  style : R heading.style heading'.style

theorem Heading.restyled {R : Notation → Notation → Prop} {heading : Heading}
    {style : Notation} (h : R heading.style style) (place : Place) :
    heading.Restyled R ⟨place, heading.statement, style⟩ := ⟨rfl, h⟩

namespace Specification

variable {τ ν : Type} {M : Type} [Metadata τ]
  {R : Notation → Notation → Prop} {style : Notation}

/-- Whether the notations of a specification and of all its parts have a
property. -/
def EveryStyle (P : Notation → Prop) : {M : Type} → Specification τ ν M → Prop
  | _, .atomic heading _ _ => P heading.style
  | _, .wrapper heading inner _ => P heading.style ∧ inner.EveryStyle P
  | _, .computed heading _ _ => P heading.style
  | _, .composite heading _ _ operands =>
    P heading.style ∧ ∀ i, (operands i).EveryStyle P
  | _, .quantified heading _ item _ => P heading.style ∧ item.EveryStyle P

theorem outcome_resolve_retold {factory : Factory τ ν M}
    (hblind : factory.Blind R) (m : M) {r r' : Result τ}
    (h : Result.Retold R r r') :
    (factory.resolve m (some r')).outcome =
      (factory.resolve m (some r)).outcome := by
  cases factory with
  | constant value => rfl
  | constants values => rfl
  | model f => rfl
  | modelMany f => rfl
  | result f => exact Traced.outcome_bind_pure (hblind m r r' h) _
  | resultMany f => exact hblind m r r' h

theorem outcome_resolve_snapshot_retold {I : Type}
    {factory : SnapshotFactory τ ν I} (hblind : factory.Blind R)
    {s s' : Snapshot τ I} (h : Snapshot.Retold R s s') :
    (factory.resolve s').outcome = (factory.resolve s).outcome := by
  cases factory with
  | constant value => rfl
  | constants values => rfl
  | snapshot f => exact Traced.outcome_bind_pure (hblind s s' h) _
  | snapshotMany f => exact hblind s s' h

/-- Declarations are alike if the factories make the same values. -/
theorem alike_declareBy {φ : Type} {heading heading' : Heading}
    (hheading : heading.Restyled R heading') {satisfied : Bool}
    {branches : Option φ} {making making' : φ → Traced ν Raised (List τ)}
    (h : ∀ pair ∈ branches, (making' pair).outcome = (making pair).outcome)
    {make make' : List τ → Declaration τ}
    (hmake : ∀ values,
      Declaration.Retold R satisfied (make values) (make' values))
    {bare bare' : Declaration τ}
    (hbare : Declaration.Retold R satisfied bare bare') :
    Alike (Declaration.Retold R satisfied)
      (declareBy heading satisfied (branches.map making) make bare).outcome
      (declareBy heading' satisfied (branches.map making') make'
        bare').outcome := by
  cases branches with
  | none => exact .ok hbare
  | some pair =>
    simp only [declareBy, Option.map_some, hheading.statement]
    apply Alike.bind ((Alike.of_eq (h pair rfl)).raisedBy _ _)
    rintro values _ _ rfl
    exact .ok (hmake values)

/-- A predicate declares again what it declared. -/
theorem alike_declare_none {heading heading' : Heading}
    (hheading : heading.Restyled R heading')
    (branches : Option (Branches (Factory τ ν M))) (m : M)
    (satisfied : Bool) :
    Alike (Declaration.Retold R satisfied)
      (declare heading branches m satisfied none).outcome
      (declare heading' branches m satisfied none).outcome := by
  simp only [declare_eq, hheading.statement]
  refine alike_declareBy hheading (fun _ _ => rfl) (fun values => ?_)
    (.fallback _ hheading.style)
  split
  · exact .fallback _ hheading.style
  · exact .ofValues _ values hheading.style

/-- A wrapper declares again what it declared. -/
theorem alike_declare_some {heading heading' : Heading}
    (hheading : heading.Restyled R heading')
    {branches : Option (Branches (Factory τ ν M))}
    (hblind : ∀ pair ∈ branches, ∀ satisfied, (pair.taken satisfied).Blind R)
    (m : M) (satisfied : Bool) {r r' : Result τ} (h : Result.Retold R r r') :
    Alike (Declaration.Retold R satisfied)
      (declare heading branches m satisfied (some r)).outcome
      (declare heading' branches m satisfied (some r')).outcome := by
  simp only [declare_eq, hheading.statement, Option.isNone_some,
    Bool.and_false, Bool.false_eq_true, if_false]
  exact alike_declareBy hheading
    (fun pair hpair => outcome_resolve_retold (hblind pair hpair satisfied) m h)
    (fun values => .ofValues _ values hheading.style) (.forwarding ..)

theorem alike_declareSnapshot {I : Type} {heading heading' : Heading}
    (hheading : heading.Restyled R heading')
    {branches : Option (Branches (SnapshotFactory τ ν I))}
    (hblind : ∀ pair ∈ branches, ∀ satisfied, (pair.taken satisfied).Blind R)
    (satisfied : Bool) {s s' : Snapshot τ I} (h : Snapshot.Retold R s s') :
    Alike (Declaration.Retold R satisfied)
      (declareSnapshot heading branches satisfied s).outcome
      (declareSnapshot heading' branches satisfied s').outcome := by
  simp only [declareSnapshot_eq, hheading.statement]
  exact alike_declareBy hheading
    (fun pair hpair =>
      outcome_resolve_snapshot_retold (hblind pair hpair satisfied) h)
    (fun values => .ofValues _ values hheading.style)
    (.fallback _ hheading.style)

theorem alike_wrap {heading heading' : Heading}
    (hheading : heading.Restyled R heading')
    {branches : Option (Branches (Factory τ ν M))}
    (hblind : ∀ pair ∈ branches, ∀ satisfied, (pair.taken satisfied).Blind R)
    (place : Place) (m : M) {r r' : Result τ} (h : Result.Retold R r r') :
    Alike (Result.Retold R) (wrap heading branches place m r).outcome
      (wrap heading' branches place m r').outcome := by
  rw [wrap_eq, wrap_eq, h.satisfied_eq]
  apply Alike.bind (alike_declare_some hheading hblind m _ h)
  intro declaration declaration' _ hdeclaration
  apply Alike.ok
  unfold wrapped
  rw [h.satisfied_eq]
  show Result.Retold R (Result.ofPositions place _ [r] [0])
    (Result.ofPositions place _ [r'] [0])
  apply Result.retold_ofPositions
  · exact ⟨hdeclaration, rfl, rfl⟩
  · exact .cons h .nil
  · simp
  · simp

theorem alike_fromOperator (place : Place) (op : Operator)
    {rs rs' : List (Result τ)} (h : List.Forall₂ (Result.Retold R) rs rs')
    (hplaces : (rs.map Node.place).Nodup) (statement statement' : String)
    (style style' : Notation) :
    Alike (Result.Retold R)
      (Result.fromOperator place op rs statement style)
      (Result.fromOperator place op rs' statement' style') := by
  unfold Result.fromOperator
  rw [← h.length_eq]
  split
  · apply Alike.ok
    unfold Result.applied
    rw [Result.map_satisfied_of_forall₂ h]
    apply Result.retold_ofPositions
    · exact ⟨.forwarding .., rfl, rfl⟩
    · exact List.forall₂_take _ h
    · rw [List.map_take]
      exact hplaces.sublist (List.take_sublist ..)
    · exact (Operator.pairwise_causes ..).imp Nat.ne_of_lt
  · exact .error _

/-- Items that are retold one by one are retold together. -/
theorem alike_itemResults {I : Type} {item item' : Specification τ ν I}
    (h : ∀ place m, Alike (Result.Retold R) (item.evaluate place m).outcome
      (item'.evaluate place m).outcome) (place : Place) (models : List I) :
    Alike (List.Forall₂ (Result.Retold R)) (itemResults item place models)
      (itemResults item' place models) := by
  unfold itemResults
  rw [← Traced.runAll_outcome, ← Traced.runAll_outcome]
  apply Alike.runUntil
  · intro entry _
    exact h ..
  · intro r r' _
    rfl

/-- The results of the items of a quantifier have places of their own. -/
theorem nodup_itemResults {I : Type} {item : Specification τ ν I}
    {place : Place} {models : List I} {results : List (Result τ)}
    (h : itemResults item place models = .ok results) :
    (results.map Node.place).Nodup := by
  unfold itemResults at h
  rw [← Traced.runAll_outcome] at h
  have hprefix := Traced.map_of_runUntil (f := Node.place)
    (g := fun entry : I × Nat => place.child entry.2) _ _ h
    fun entry r hr => (evaluate_shows hr).1
  have hplaces : models.zipIdx.map (fun entry => place.child entry.2) =
      (List.range models.length).map place.child := by
    rw [List.range_eq_range', ← List.zipIdx_map_snd 0 models, List.map_map]
    rfl
  rw [hplaces] at hprefix
  apply List.Nodup.sublist hprefix.sublist
  exact List.nodup_range.map place.child_injective

/-- The results of the operands of a composite have places of their own. -/
theorem nodup_operandResults {count : Nat} {stop : Result τ → Bool}
    {operands : Fin count → Specification τ ν M} {place : Place} {m : M}
    {results : List (Result τ)}
    (h : (Traced.runUntil stop
      (fun i : Fin count => (operands i).evaluate (place.child i) m)
      (List.finRange count)).outcome = .ok results) :
    (results.map Node.place).Nodup := by
  have hprefix := Traced.map_of_runUntil (f := Node.place)
    (g := fun i : Fin count => place.child i) _ _ h
    fun i r hr => (evaluate_shows hr).1
  apply List.Nodup.sublist hprefix.sublist
  apply (List.nodup_finRange count).map
  exact place.child_injective.comp Fin.val_injective

/-- A restyled specification answers the retold result. -/
theorem alike_restyle {s : Specification τ ν M} (hblind : s.Blind R)
    (hstyles : s.EveryStyle (R · style)) (p place : Place) (m : M) :
    Alike (Result.Retold R) (s.evaluate place m).outcome
      ((s.restyle style p).evaluate place m).outcome := by
  induction s generalizing p place with
  | atomic heading predicate branches =>
    apply Alike.bind ((Alike.of_eq rfl).raisedBy _ _)
    rintro satisfied _ _ rfl
    apply Alike.bind (alike_declare_none (Heading.restyled hstyles p) branches
      m satisfied)
    intro declaration declaration' _ hdeclaration
    apply Alike.ok
    show Result.Retold R (Result.ofPositions place _ [] [])
      (Result.ofPositions place _ [] [])
    apply Result.retold_ofPositions
    · exact ⟨hdeclaration, rfl, rfl⟩
    · exact .nil
    · simp
    · simp
  | wrapper heading inner branches ih =>
    apply Alike.bind (ih hblind.1 hstyles.2 _ place m)
    intro r r' _ hr
    exact alike_wrap (Heading.restyled hstyles.1 p) hblind.2 place m hr
  | computed heading function branches =>
    apply Alike.bind ((Alike.of_eq rfl).raisedBy _ _)
    rintro r _ _ rfl
    exact alike_wrap (Heading.restyled hstyles p) hblind place m (.same r)
  | composite heading op count operands ih =>
    rw [restyle_composite]
    apply Alike.bind
    · apply Alike.runUntil (P := Result.Retold R)
      · intro i _
        exact ih i (hblind i) (hstyles.2 i) (p.child i) (place.child i) m
      · intro r r' hr
        rw [hr.satisfied_eq]
    · intro results results' hrun hresults
      exact alike_fromOperator place op hresults (nodup_operandResults hrun)
        ..
  | quantified heading quantifier item branches ih =>
    rw [restyle, evaluate_quantified, evaluate_quantified]
    apply Alike.bind
    · rw [Traced.runAll_outcome, Traced.runAll_outcome]
      apply alike_itemResults
      exact ih hblind.1 hstyles.2 (p.child 0)
    · intro results results' hrun hresults
      rw [Result.map_satisfied_of_forall₂ hresults]
      apply Alike.bind
      · exact alike_declareSnapshot (Heading.restyled hstyles.1 p) hblind.2 _
          ⟨rfl, hresults, rfl⟩
      · intro declaration declaration' _ hdeclaration
        apply Alike.ok
        unfold judged
        rw [Result.map_satisfied_of_forall₂ hresults]
        apply Result.retold_ofPositions
        · exact ⟨hdeclaration, rfl, rfl⟩
        · exact hresults
        · rw [Traced.runAll_outcome] at hrun
          exact nodup_itemResults hrun
        · exact (Quantifier.pairwise_causes ..).imp Nat.ne_of_lt

/-! ## The callbacks -/

omit [Metadata τ] in
/-- Which callback a factory is does not depend on the result it reads. -/
theorem callbacks_calls (factory : Factory τ ν M) (callback : Callback)
    (m : M) (r r' : Result τ) :
    (factory.calls callback m (some r')).map Call.callback =
      (factory.calls callback m (some r)).map Call.callback := by
  cases factory <;> simp [Factory.calls]

omit [Metadata τ] in
theorem callbacks_branchCalls (position : Place) (heading : Heading)
    (branches : Option (Branches (Factory τ ν M))) (m : M) (satisfied : Bool)
    (r r' : Result τ) :
    (branchCalls position heading branches m satisfied (some r')).map
        Call.callback =
      (branchCalls position heading branches m satisfied (some r)).map
        Call.callback := by
  cases branches with
  | none => rfl
  | some pair => exact callbacks_calls ..

omit [Metadata τ] in
theorem callbacks_snapshotCalls {I : Type} (position : Place)
    (heading : Heading) (branches : Option (Branches (SnapshotFactory τ ν I)))
    (satisfied : Bool) (s s' : Snapshot τ I) :
    (snapshotCalls position heading branches satisfied s').map
        Call.callback =
      (snapshotCalls position heading branches satisfied s).map
        Call.callback := by
  cases branches with
  | none => rfl
  | some pair =>
    simp only [snapshotCalls]
    cases pair.taken satisfied <;> simp [SnapshotFactory.calls]

/-- Outcomes that are alike let an operator stop alike. -/
theorem stopsAfter_of_alike (op : Operator) {x y : Except Error (Result τ)}
    (h : Alike (Result.Retold R) x y) : op.stopsAfter y = op.stopsAfter x := by
  cases h with
  | error e => rfl
  | ok hr => simp only [Operator.stopsAfter, hr.satisfied_eq]

/-- A restyled specification invokes the same callbacks. -/
theorem callbacks_restyle {s : Specification τ ν M} (hblind : s.Blind R)
    (hstyles : s.EveryStyle (R · style)) (p position place : Place) (m : M) :
    ((s.restyle style p).calls position place m).map Call.callback =
      (s.calls position place m).map Call.callback := by
  induction s generalizing p position place with
  | atomic heading predicate branches => rfl
  | wrapper heading inner branches ih =>
    have hinner := alike_restyle hblind.1 hstyles.2 (p.child 0) place m
    simp only [restyle, calls, List.map_append,
      ih hblind.1 hstyles.2 (p.child 0)]
    congr 1
    generalize (inner.evaluate place m).outcome = x at hinner ⊢
    generalize ((inner.restyle style (p.child 0)).evaluate place m).outcome = y
      at hinner ⊢
    cases hinner with
    | error e => rfl
    | ok hr =>
      simp only [hr.satisfied_eq]
      exact callbacks_branchCalls ..
  | computed heading function branches => rfl
  | composite heading op count operands ih =>
    have hstops : (fun i : Fin count => op.stopsAfter
        (((operands i).restyle style (p.child i)).evaluate (place.child i)
          m).outcome) =
        fun i => op.stopsAfter
          ((operands i).evaluate (place.child i) m).outcome := by
      funext i
      apply stopsAfter_of_alike
      exact alike_restyle (hblind i) (hstyles.2 i) (p.child i) _ m
    rw [restyle_composite]
    simp only [calls, hstops, List.map_flatMap]
    apply List.flatMap_congr
    intro i _
    exact ih i (hblind i) (hstyles.2 i) ..
  | quantified heading quantifier item branches ih =>
    have hitem := alike_restyle hblind.1 hstyles.2 (p.child 0)
    have hitems := alike_itemResults hitem place m
    have hstops : (fun entry : _ × Nat =>
        !((item.restyle style (p.child 0)).evaluate (place.child entry.2)
          entry.1).outcome.isOk) =
        fun entry =>
          !(item.evaluate (place.child entry.2) entry.1).outcome.isOk := by
      funext entry
      rw [(hitem _ _).isOk_eq]
    simp only [restyle, calls, hstops, List.map_append, List.map_flatMap,
      ih hblind.1 hstyles.2 (p.child 0)]
    congr 1
    generalize itemResults item place m = x at hitems ⊢
    generalize itemResults (item.restyle style (p.child 0)) place m = y
      at hitems ⊢
    cases hitems with
    | error e => rfl
    | ok hresults =>
      simp only [Result.map_satisfied_of_forall₂ hresults]
      exact callbacks_snapshotCalls ..

/-! ## Restyling and evaluating -/

omit [Metadata τ] in
theorem EveryStyle.of_forall {P : Notation → Prop} (h : ∀ style, P style)
    (s : Specification τ ν M) : s.EveryStyle P := by
  induction s with
  | atomic heading predicate branches => exact h _
  | wrapper heading inner branches ih => exact ⟨h _, ih⟩
  | computed heading function branches => exact h _
  | composite heading op count operands ih => exact ⟨h _, ih⟩
  | quantified heading quantifier item branches ih => exact ⟨h _, ih⟩

/-- Restyling forgets the notation that was there before and can be done
before or after an operator is applied, up to the places at which parts are
made.  To blind callbacks it makes no difference: the same ones are invoked
in the same order, and the outcome is the same failure or the same decision,
over the same operands for the same causes at every depth. -/
theorem restyling_keeps (s t : Specification τ ν M) (op : Operator)
    (style style' : Notation) (made made' p q q' : Place) :
    Interchangeable ((s.restyle style p).restyle style' q)
        (s.restyle style' q') ∧
      Interchangeable ((combine made op s t).restyle style p)
        (combine made' op (s.restyle style q) (t.restyle style q')) ∧
      Interchangeable ((negation made s).restyle style p)
        (negation made' (s.restyle style q)) ∧
      ((s.Blind fun _ _ => True) → ∀ position place m,
        ((s.restyle style p).calls position place m).map Call.callback =
            (s.calls position place m).map Call.callback ∧
          ((s.restyle style p).evaluate place m).outcome.map
              (Node.map Finding.bare) =
            (s.evaluate place m).outcome.map (Node.map Finding.bare)) := by
  refine ⟨interchangeable_restyle_restyle .., interchangeable_combine_restyle ..,
    interchangeable_negation_restyle .., ?_⟩
  intro hblind position place m
  have hstyles : s.EveryStyle fun _ => True := .of_forall (fun _ => trivial) s
  refine ⟨callbacks_restyle hblind hstyles .., ?_⟩
  have halike : Alike (Result.Retold fun _ _ => True)
      (s.evaluate place m).outcome
      ((s.restyle style p).evaluate place m).outcome :=
    alike_restyle hblind hstyles p place m
  generalize (s.evaluate place m).outcome = x at halike ⊢
  generalize ((s.restyle style p).evaluate place m).outcome = y at halike ⊢
  cases halike with
  | error e => rfl
  | ok hr => exact congrArg Except.ok hr.map_bare

/-- Whether any of some numbers is even, with callbacks that read results. -/
def someEven : Specification String Unit (List Nat) :=
  .quantified ⟨.root 3, "some even", {}⟩ .any
    (.wrapper ⟨.root 2, "even", {}⟩
      (negation (.root 1)
        (.atomic ⟨.root 0, "odd", {}⟩ (fun n => pure (n % 2 == 1)) none))
      (some ⟨.constants [], .result fun n r =>
        pure (if r.satisfied then "is even" else toString n ++ " is odd")⟩))
    (some ⟨.snapshot fun s => pure (toString s.causes.length),
      .constants []⟩)

theorem blind_someEven (R : Notation → Notation → Prop) :
    someEven.Blind R := by
  refine ⟨⟨Fin.forall_fin_one.2 ?_, ?_⟩, ?_⟩
  · intro pair hpair
    cases hpair
  · intro pair hpair satisfied
    obtain rfl := Option.some.inj hpair
    cases satisfied with
    | true => exact trivial
    | false =>
      intro n r r' hr
      simp only [hr.satisfied_eq]
  · intro pair hpair satisfied
    obtain rfl := Option.some.inj hpair
    cases satisfied with
    | true =>
      intro s s' hs
      simp only [hs.causes]
    | false => exact trivial

/-- Two numbers are judged in another notation by the same callbacks. -/
theorem restyling_keeps_someEven :
    (someEven.Blind fun _ _ => True) ∧
      (((someEven.restyle { falsePrefix := "not " } (.root 4)).calls (.root 5)
        (.root 6) [2, 3]).map Call.callback).map Callback.statement =
          ["odd", "odd", "even", "some even"] := by
  have hkeeps := (restyling_keeps someEven someEven .and
    { falsePrefix := "not " } {} (.root 0) (.root 0) (.root 4) (.root 0)
    (.root 0)).2.2.2 (blind_someEven _) (.root 5) (.root 6) [2, 3]
  refine ⟨blind_someEven _, ?_⟩
  rw [hkeeps.1]
  decide

variable [DecidableEq τ]

/-- If a specification and its parts mark false statements alike, restyling
it to a notation with this mark is printing its results in that notation. -/
theorem restyle_describes {s : Specification τ ν M}
    (hblind : s.Blind Notation.SameMark)
    (hstyles : s.EveryStyle (Notation.SameMark · style)) (p : Place)
    {place : Place} {m : M} {r : Result τ}
    (h : (s.evaluate place m).outcome = .ok r) :
    ∃ r', ((s.restyle style p).evaluate place m).outcome = .ok r' ∧
      r'.description.reason = r.reason style ∧
      r'.description.justification = r.justification style := by
  have halike := alike_restyle hblind hstyles p place m
  rw [h] at halike
  generalize hr' : ((s.restyle style p).evaluate place m).outcome = y
    at halike
  cases halike with
  | @ok _ r' hretold =>
    have hstyle : r'.label.style = style := by
      rw [(evaluate_shows hr').2.2, restyle_style]
    refine ⟨r', rfl, ?_, ?_⟩
    · unfold Result.description Result.reason
      rw [hstyle, hretold.view_eq]
    · unfold Result.description Result.justification Result.outline
      rw [hstyle, hretold.view_eq]

/-- Two odd numbers are explained with another separator. -/
theorem restyle_describes_someEven :
    someEven.Blind Notation.SameMark ∧
      someEven.EveryStyle (Notation.SameMark · { assertionSeparator := "; " }) ∧
      ∃ r r', (someEven.evaluate (.root 6) [3, 5]).outcome = .ok r ∧
        ((someEven.restyle { assertionSeparator := "; " } (.root 4)).evaluate
          (.root 6) [3, 5]).outcome = .ok r' ∧
        r'.description.reason = r.reason { assertionSeparator := "; " } ∧
        r.reason { assertionSeparator := "; " } = "3 is odd; 5 is odd" := by
  have hstyles : someEven.EveryStyle
      (Notation.SameMark · { assertionSeparator := "; " }) :=
    ⟨rfl, rfl, rfl, Fin.forall_fin_one.2 rfl⟩
  obtain ⟨r, hr, hreason⟩ : ∃ r,
      (someEven.evaluate (.root 6) [3, 5]).outcome = .ok r ∧
        r.reason { assertionSeparator := "; " } = "3 is odd; 5 is odd" :=
    ⟨_, rfl, by decide⟩
  obtain ⟨r', hr', hsame, -⟩ :=
    restyle_describes (blind_someEven _) hstyles (.root 4) hr
  exact ⟨blind_someEven _, hstyles, r, r', hr, hr', hsame, hreason⟩

end Specification

end Rationale
