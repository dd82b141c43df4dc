import Rationale.Proofs.Runs

/-!
# Composing specifications and composing results

Evaluating a composite says the same as evaluating its two sides on their
own and combining the results.  The specification of a chain is always one
node; the result of a short-circuit chain is a node over the results of its
sides.  There are four groups.

* Statements.  A chain is written without brackets, so it reads the same
  as one node and as a node over chains.
* Places.  The operands of two chains are evaluated at places of their own,
  and `exists_shifts_jointPlace` moves all of these below one place.
* Chains of evaluations.  `chained_of_evaluate` says that the result of an
  evaluation can be replaced by those that it stands for.
* Agreement.  `evaluate_combine_eq` evaluates the composite by a run over
  the operands of both chains, and `saysSame_combine` compares what that
  answers with the combined results.
-/

namespace Rationale

/-! ## Statements -/

theorem composeStatement_eq {op : Operator} (hop : op ≠ .not)
    (operands : List Operand) (style : Notation) :
    composeStatement op operands style =
      (" " ++ op.statementSymbol ++ " ").intercalate
        (operands.map (Operand.bracketed op)) := by
  cases op with
  | not => exact absurd rfl hop
  | and | or | xor | andAlso | orElse => rfl

/-- Texts may be joined in groups first, unless a group is empty. -/
theorem intercalate_flatMap {α : Type*} (separator : String)
    {f : α → List String} {xs : List α} (h : ∀ x ∈ xs, f x ≠ []) :
    separator.intercalate (xs.flatMap f) =
      separator.intercalate (xs.map fun x => separator.intercalate (f x)) := by
  induction xs with
  | nil => rfl
  | cons x rest ih =>
    have hx := h x List.mem_cons_self
    have ih := ih fun y hy => h y (List.mem_cons_of_mem x hy)
    cases rest with
    | nil => simp
    | cons y others =>
      have hy := h y (List.mem_cons_of_mem x List.mem_cons_self)
      have hrest : (y :: others).flatMap f ≠ [] := by simp [hy]
      have hjoined : (y :: others).map
          (fun x => separator.intercalate (f x)) ≠ [] := List.cons_ne_nil _ _
      show separator.intercalate (f x ++ (y :: others).flatMap f) =
        separator.intercalate (separator.intercalate (f x) ::
          (y :: others).map fun x => separator.intercalate (f x))
      rw [String.intercalate_append_of_ne_nil hx hrest, ih,
        String.intercalate_cons_of_ne_nil hjoined]

namespace Specification

variable {τ ν : Type} {M : Type}

/-- The operands that a specification brings into a chain read as the
specification does in the chain. -/
theorem intercalate_chainOperands {op : Operator} (hop : op ≠ .not)
    {s : Specification τ ν M} (h : s.WellFormed) :
    (" " ++ op.statementSymbol ++ " ").intercalate
        ((chainOperands op s).map fun operand =>
          operand.operand.bracketed op) =
      s.operand.bracketed op := by
  by_cases hchain : s.operator = some op ∧ op.isAssociative
  · have hbare : s.operand.bracketed op = s.statement := by
      have hbrackets : op.bracketsChild s.operator = false := by
        rw [hchain.1]
        cases op <;> rfl
      rw [Operand.bracketed, operand, hbrackets]
      rfl
    rw [chainOperands, if_pos hchain, hbare]
    cases s with
    | composite heading op' count operands =>
      obtain rfl : op' = op := Option.some.inj hchain.1
      have hstatement : heading.statement =
          statementOf op' (List.ofFn operands) heading.style := h.2.1
      rw [statement, Specification.heading, hstatement, statementOf,
        composeStatement_eq hop, List.map_map]
      rfl
    | _ => cases hchain.1
  · rw [chainOperands, if_neg hchain, List.map_singleton,
      String.intercalate_singleton]

/-- Chains in a row read as one chain. -/
theorem statementOf_chains {op : Operator} (hop : op ≠ .not)
    {specifications : List (Specification τ ν M)}
    (h : ∀ s ∈ specifications, s.WellFormed) (style : Notation) :
    statementOf op (specifications.flatMap (chainOperands op)) style =
      statementOf op specifications style := by
  have hne : ∀ s ∈ specifications,
      (chainOperands op s).map (fun operand =>
        operand.operand.bracketed op) ≠ [] := by
    intro s hs
    simpa using chainOperands_ne_nil op (h s hs)
  rw [statementOf, statementOf, composeStatement_eq hop,
    composeStatement_eq hop, List.map_map, List.map_map, List.map_flatMap]
  refine (intercalate_flatMap _ hne).trans (congrArg _ ?_)
  exact List.map_congr_left fun s hs =>
    intercalate_chainOperands hop (h s hs)

/-! ## Places of two chains -/

section Places

variable {known : Set Place} {a b : Specification τ ν M}
  {placeA placeB place : Place}

/-- Where the operands of two chains are evaluated, by their positions in
the chain of both. -/
def jointPlace (op : Operator) (a b : Specification τ ν M)
    (placeA placeB : Place) (i : Nat) : Place :=
  if i < (chainOperands op a).length then chainPlace op a placeA i
  else chainPlace op b placeB (i - (chainOperands op a).length)

theorem jointPlace_of_lt {op : Operator} {i : Nat}
    (hi : i < (chainOperands op a).length) :
    jointPlace op a b placeA placeB i = chainPlace op a placeA i := if_pos hi

theorem jointPlace_add (op : Operator) (i : Nat) :
    jointPlace op a b placeA placeB (i + (chainOperands op a).length) =
      chainPlace op b placeB i := by
  rw [jointPlace, if_neg (by omega), Nat.add_sub_cancel]

theorem jointPlace_cases (op : Operator) (a b : Specification τ ν M)
    (placeA placeB : Place) (i : Nat) :
    placeA.Contains (jointPlace op a b placeA placeB i) ∨
      placeB.Contains (jointPlace op a b placeA placeB i) := by
  rw [jointPlace]
  split
  · exact Or.inl (contains_chainPlace ..)
  · exact Or.inr (contains_chainPlace ..)

/-- The operands of two chains are evaluated at places that are apart. -/
theorem apart_jointPlace (hAB : placeA.Apart placeB) {op : Operator}
    {i j : Nat}
    (hi : i < (chainOperands op a ++ chainOperands op b).length)
    (hj : j < (chainOperands op a ++ chainOperands op b).length)
    (hij : i ≠ j) :
    (jointPlace op a b placeA placeB i).Apart
      (jointPlace op a b placeA placeB j) := by
  rw [List.length_append] at hi hj
  rw [jointPlace, jointPlace]
  split
  · rename_i hiA
    split
    · rename_i hjA
      exact apart_chainPlace hiA hjA hij
    · exact hAB.of_contains (contains_chainPlace ..) (contains_chainPlace ..)
  · rename_i hiB
    split
    · exact hAB.symm.of_contains (contains_chainPlace ..)
        (contains_chainPlace ..)
    · rename_i hjB
      refine apart_chainPlace ?_ ?_ ?_ <;> omega

/-- The operands of two chains can be moved to below one place. -/
theorem exists_shifts_jointPlace (op : Operator)
    (a b : Specification τ ν M) (hAB : placeA.Apart placeB)
    (hA : placeA.Apart place) (hB : placeB.Apart place)
    (hfresh : ∀ q ∈ known,
      ¬placeA.Contains q ∧ ¬placeB.Contains q ∧ ¬place.Contains q) :
    ∃ ρ, Place.Fixes ρ known ∧
      (∀ i < (chainOperands op a).length,
        Place.Shifts ρ (chainPlace op a placeA i) (place.child i)) ∧
      ∀ i < (chainOperands op b).length,
        Place.Shifts ρ (chainPlace op b placeB i)
          (place.child (i + (chainOperands op a).length)) := by
  have hcases := jointPlace_cases op a b placeA placeB
  have hcross (i j : Nat) :
      (jointPlace op a b placeA placeB i).Apart (place.child j) := by
    rcases hcases i with hi | hi
    · exact hA.of_contains hi (place.contains_child j)
    · exact hB.of_contains hi (place.contains_child j)
  let count := (chainOperands op a ++ chainOperands op b).length
  have hcount : count =
      (chainOperands op a).length + (chainOperands op b).length :=
    List.length_append
  have hsource : ∀ i ∈ List.range count, ∀ j ∈ List.range count, i ≠ j →
      (jointPlace op a b placeA placeB i).Apart
        (jointPlace op a b placeA placeB j) := by
    intro i hi j hj hij
    exact apart_jointPlace hAB (List.mem_range.1 hi) (List.mem_range.1 hj) hij
  obtain ⟨ρ, hshifts, hfixes⟩ := Place.exists_shifts
    (jointPlace op a b placeA placeB) place.child List.nodup_range hsource
    (fun i _ j _ hij => place.apart_child hij) (fun i _ j _ => hcross i j)
  refine ⟨ρ, fun q hq => hfixes q fun i _ => ⟨fun hi => ?_, fun hi => ?_⟩,
    fun i hi => ?_, fun i hi => ?_⟩
  · obtain ⟨hqA, hqB, -⟩ := hfresh q hq
    rcases hcases i with hcase | hcase
    · exact hqA (hcase.trans hi)
    · exact hqB (hcase.trans hi)
  · exact (hfresh q hq).2.2 ((place.contains_child i).trans hi)
  · have hmem : i ∈ List.range count := List.mem_range.2 (by omega)
    have hmoved := hshifts i hmem
    rwa [jointPlace_of_lt hi] at hmoved
  · have hmem : i + (chainOperands op a).length ∈ List.range count :=
      List.mem_range.2 (by omega)
    have hmoved := hshifts _ hmem
    rwa [jointPlace_add] at hmoved

end Places

/-! ## Chains of evaluations -/

theorem Pure.of_mem_chainOperands {known : Set Place} {op : Operator}
    {s operand : Specification τ ν M} (h : s.Pure known)
    (hmem : operand ∈ chainOperands op s) : operand.Pure known := by
  rcases eq_or_exists_of_mem_chainOperands hmem with
    rfl | ⟨heading, count, operands, i, rfl, rfl⟩
  · exact h
  · exact h i

variable [Metadata τ] {m : M}

/-- The results that the result of an evaluation stands for differ. -/
theorem nodup_chain {s : Specification τ ν M} {place : Place} {r : Result τ}
    (h : (s.evaluate place m).outcome = .ok r) (op : Operator) :
    (Result.chain op r).Nodup :=
  nodup_runOperands (fun _ hi _ hj hij => (apart_chainPlace hi hj hij).ne)
    (runOperands_chainOperands h)

/-- They are made at the place of the evaluation or below it. -/
theorem contains_of_mem_chain {s : Specification τ ν M} {place : Place}
    {r other : Result τ} (h : (s.evaluate place m).outcome = .ok r)
    {op : Operator} (hother : other ∈ Result.chain op r) :
    place.Contains other.place := by
  have hrun : (runOperands op (chainOperands op s) (chainPlace op s place)
      m).outcome = .ok (Result.chain op r) := runOperands_chainOperands h
  have hmem := (places_runOperands hrun).subset (List.mem_map_of_mem hother)
  obtain ⟨i, -, hi⟩ := List.mem_map.1 hmem
  rw [← hi]
  exact contains_chainPlace ..

/-- The result of an evaluation can be replaced by those that it stands
for. -/
theorem chained_of_evaluate [DecidableEq τ] {s : Specification τ ν M}
    {place : Place} {r : Result τ}
    (h : (s.evaluate place m).outcome = .ok r) {op : Operator}
    (hop : op.shortCircuits) : Result.Chained op r := by
  by_cases hkind : r.label.kind = .applied op
  · have hoperator : r.label.kind.operator = s.operator :=
      congrArg Operand.operator (evaluate_shows h).2.1
    rw [hkind] at hoperator
    cases s with
    | composite heading op' count operands =>
      obtain ⟨results, hresults, -, rfl⟩ := evaluate_composite_eq_ok_iff.1 h
      obtain rfl : op = op' := Option.some.inj hoperator
      have hrun : (runOperands op (List.ofFn operands) place.child
          m).outcome = .ok results := by
        rw [runOperands_ofFn]
        exact hresults
      have hnodup : results.Nodup :=
        nodup_runOperands (fun _ _ _ _ hij => (place.apart_child hij).ne) hrun
      exact Result.chained_applied hop place hnodup ..
    | _ => cases hoperator
  · exact Result.chained_of_ne hop hkind

/-- The operands of a chain answer the same at other places, moved there. -/
theorem runOperands_chainOperands_of_shifts {known : Set Place} {op : Operator}
    {s : Specification τ ν M} (hpure : s.Pure known)
    {ρ : Equiv.Perm Place} (hρ : Place.Fixes ρ known) {place : Place}
    {place' : Nat → Place}
    (hshifts : ∀ i < (chainOperands op s).length,
      Place.Shifts ρ (chainPlace op s place i) (place' i))
    {r : Result τ} (h : (s.evaluate place m).outcome = .ok r) :
    (runOperands op (chainOperands op s) place' m).outcome =
      .ok ((Result.chain op r).map (Node.rename ρ)) := by
  have hmaps : Traced.Maps (List.map (Node.rename ρ))
      (runOperands op (chainOperands op s) (chainPlace op s place) m)
      (runOperands op (chainOperands op s) place' m) :=
    maps_runOperands (fun _ hs => hpure.of_mem_chainOperands hs) hρ hshifts
  rw [hmaps, runOperands_chainOperands h]
  rfl

/-! ## Agreement -/

section Agreement

variable {known : Set Place} {a b : Specification τ ν M}
  {placeA placeB place : Place} {ra rb : Result τ}

/-- The composite of two specifications is evaluated by running the operands
of both chains, and this answers the results that theirs stand for, moved to
below the place of the composite. -/
theorem evaluate_combine_eq (ha : a.WellFormed) (hpureA : a.Pure known)
    (hpureB : b.Pure known) {op : Operator} (hop : op ≠ .not)
    (hAB : placeA.Apart placeB) (hA : placeA.Apart place)
    (hB : placeB.Apart place)
    (hfresh : ∀ q ∈ known,
      ¬placeA.Contains q ∧ ¬placeB.Contains q ∧ ¬place.Contains q)
    (hra : (a.evaluate placeA m).outcome = .ok ra)
    (hrb : (b.evaluate placeB m).outcome = .ok rb) (made : Place) :
    ∃ ρ : Equiv.Perm Place,
      ((combine made op a b).evaluate place m).outcome =
        .ok (Result.applied place op
          ((Result.chain op ra ++ Result.chain op rb).map (Node.rename ρ))
          (statementOf op (chainOperands op a ++ chainOperands op b) a.style)
          a.style) := by
  obtain ⟨ρ, hρ, hshiftsA, hshiftsB⟩ :=
    exists_shifts_jointPlace op a b hAB hA hB hfresh
  have hrunA := runOperands_chainOperands_of_shifts hpureA hρ hshiftsA hra
  have hrunB := runOperands_chainOperands_of_shifts hpureB hρ hshiftsB hrb
  have hrun := runOperands_append hrunA hrunB
  rw [← List.map_append] at hrun
  exact ⟨ρ, evaluate_compose_of_run made a.style (accepts_chains hop ha b) hrun⟩

/-- The negation of a specification negates its result, moved to below the
place of the negation. -/
theorem evaluate_negation_eq (hpure : a.Pure known) (hA : placeA.Apart place)
    (hfresh : ∀ q ∈ known, ¬placeA.Contains q ∧ ¬place.Contains q)
    (hra : (a.evaluate placeA m).outcome = .ok ra) (made : Place) :
    ∃ ρ : Equiv.Perm Place,
      ((negation made a).evaluate place m).outcome =
        .ok (Result.applied place .not ([ra].map (Node.rename ρ))
          (statementOf .not [a] a.style) a.style) := by
  have hcross : placeA.Apart (place.child 0) :=
    hA.of_contains placeA.contains_refl (place.contains_child 0)
  have hfixes : Place.Fixes (Place.swap hcross) known := by
    intro q hq
    obtain ⟨hqA, hqPlace⟩ := hfresh q hq
    exact Place.exchange_of_not_contains hqA fun hchild =>
      hqPlace ((place.contains_child 0).trans hchild)
  have hnone : ¬(a.operator = some .not ∧ Operator.not.isAssociative) :=
    fun h => Bool.false_ne_true h.2
  have hself : chainOperands .not a = [a] := chainOperands_eq_self rfl a
  have hshifts : ∀ i < (chainOperands .not a).length,
      Place.Shifts (Place.swap hcross) (chainPlace .not a placeA i)
        (place.child i) := by
    intro i hi
    rw [hself, List.length_singleton, Nat.lt_one_iff] at hi
    subst hi
    rw [chainPlace, if_neg hnone]
    exact Place.exchange_below_left placeA (place.child 0)
  have hrun := runOperands_chainOperands_of_shifts hpure hfixes hshifts hra
  have hresults : Result.chain .not ra = [ra] :=
    if_neg fun h => Bool.false_ne_true h.2
  rw [hself, hresults] at hrun
  exact ⟨_, evaluate_compose_of_run made a.style rfl hrun⟩

/-- The statement of the composite is that of the combined results. -/
theorem statementOf_results (ha : a.WellFormed) (hb : b.WellFormed)
    {op : Operator} (hop : op ≠ .not)
    (hra : (a.evaluate placeA m).outcome = .ok ra)
    (hrb : (b.evaluate placeB m).outcome = .ok rb) (style : Notation) :
    Result.statementOf op
        (Result.chainOperands op ra ++ Result.chainOperands op rb) style =
      statementOf op (chainOperands op a ++ chainOperands op b) style := by
  by_cases hshort : op.shortCircuits
  · have hsides : ∀ s ∈ [a, b], s.WellFormed := by simp [ha, hb]
    have hchains := statementOf_chains hop hsides style
    rw [List.flatMap_cons, List.flatMap_singleton] at hchains
    rw [Result.chainOperands_of_shortCircuits hshort,
      Result.chainOperands_of_shortCircuits hshort, hchains,
      Result.statementOf, statementOf, List.map_append,
      List.map_singleton, List.map_singleton, (evaluate_shows hra).2.1,
      (evaluate_shows hrb).2.1]
    rfl
  · have hnone : op.settledBy = none := by
      simpa [Operator.shortCircuits] using hshort
    have hoperandsA := operands_runOperands hnone
      (runOperands_chainOperands hra)
    have hoperandsB := operands_runOperands hnone
      (runOperands_chainOperands hrb)
    rw [Result.chainOperands_eq_chain hshort,
      Result.chainOperands_eq_chain hshort, Result.statementOf, statementOf,
      List.map_append, List.map_append, hoperandsA, hoperandsB]

variable [DecidableEq τ]

/-- The results of two sides may be combined or joined to one chain. -/
theorem saysSame_combine (ha : a.WellFormed) (hb : b.WellFormed)
    {op : Operator} (hop : op ≠ .not) (hAB : placeA.Apart placeB)
    (hra : (a.evaluate placeA m).outcome = .ok ra)
    (hrb : (b.evaluate placeB m).outcome = .ok rb) (made : Place) :
    Result.SaysSame
      (Result.applied made op (Result.chain op ra ++ Result.chain op rb)
        (statementOf op (chainOperands op a ++ chainOperands op b) a.style)
        a.style)
      (Result.combine made op ra rb) := by
  have hstyle : ra.label.style = a.style := (evaluate_shows hra).2.2
  have hstatement := statementOf_results ha hb hop hra hrb a.style
  rw [Result.combine, hstyle, hstatement]
  by_cases hshort : op.shortCircuits
  · have hapart : ra ≠ rb := by
      rintro rfl
      exact hAB.ne ((evaluate_shows hra).1.symm.trans (evaluate_shows hrb).1)
    have hnodup : (Result.chain op ra ++ Result.chain op rb).Nodup := by
      refine List.nodup_append.2
        ⟨nodup_chain hra op, nodup_chain hrb op, fun r hr r' hr' heq => ?_⟩
      subst heq
      exact hAB.not_contains (contains_of_mem_chain hra hr)
        (contains_of_mem_chain hrb hr')
    rw [Result.chainOperands_of_shortCircuits hshort,
      Result.chainOperands_of_shortCircuits hshort]
    exact Result.saysSame_of_chained hshort (chained_of_evaluate hra hshort)
      (chained_of_evaluate hrb hshort) hapart hnodup ..
  · rw [Result.chainOperands_eq_chain hshort,
      Result.chainOperands_eq_chain hshort]
    exact .refl _

/-- Evaluating a composite says the same as combining the results of its
sides, each of which is evaluated on its own, and likewise for a negation. -/
theorem combine_saysSame (ha : a.Built) (hb : b.Built)
    (hpureA : a.Pure known) (hpureB : b.Pure known) {op : Operator}
    (hop : op ≠ .not) (hAB : placeA.Apart placeB) (hA : placeA.Apart place)
    (hB : placeB.Apart place)
    (hfresh : ∀ q ∈ known,
      ¬placeA.Contains q ∧ ¬placeB.Contains q ∧ ¬place.Contains q)
    (hra : (a.evaluate placeA m).outcome = .ok ra)
    (hrb : (b.evaluate placeB m).outcome = .ok rb) (made made' : Place) :
    (∃ r, ((combine made op a b).evaluate place m).outcome = .ok r ∧
        r.SaysSame (Result.combine made' op ra rb)) ∧
      ∃ r, ((negation made a).evaluate place m).outcome = .ok r ∧
        r.SaysSame (Result.negation made' ra) := by
  constructor
  · obtain ⟨ρ, hr⟩ := evaluate_combine_eq ha.wellFormed hpureA hpureB hop hAB
      hA hB hfresh hra hrb made
    exact ⟨_, hr, (Result.saysSame_applied_rename ..).trans
      (saysSame_combine ha.wellFormed hb.wellFormed hop hAB hra hrb made')⟩
  · have hfreshA : ∀ q ∈ known, ¬placeA.Contains q ∧ ¬place.Contains q :=
      fun q hq => ⟨(hfresh q hq).1, (hfresh q hq).2.2⟩
    obtain ⟨ρ, hr⟩ := evaluate_negation_eq hpureA hA hfreshA hra made
    refine ⟨_, hr, (Result.saysSame_applied_rename ρ place made' ..).trans ?_⟩
    obtain ⟨-, hoperand, hstyle⟩ := evaluate_shows hra
    have hstatement : Result.statementOf .not [ra] a.style =
        statementOf .not [a] a.style := by
      rw [Result.statementOf, statementOf, List.map_singleton,
        List.map_singleton, hoperand]
    rw [Result.negation, hstyle, hstatement]
    exact .refl _

end Agreement

/-- Numbers that are positive and that a function finds to be small. -/
def positiveSmall : Specification String Unit Nat :=
  combine (.root 0) .andAlso
    (.atomic ⟨.root 1, "positive", {}⟩ (fun n => pure (0 < n)) none)
    (.computed ⟨.root 2, "small", {}⟩
      (fun place n => pure (Result.atomic (place.child 0) (n < 10)
        (.fallback "below ten" {} (n < 10)))) none)

/-- Even numbers. -/
def even : Specification String Unit Nat :=
  .atomic ⟨.root 3, "even", {}⟩ (fun n => pure (n % 2 == 0)) none

theorem built_positiveSmall : positiveSmall.Built := by
  have hsmall : (Source.function (τ := String) (ν := Unit)
      (fun place n => pure (Result.atomic (place.child 0) (n < 10)
        (.fallback "below ten" {} (n < 10))))).create (.root 2) "small" =
      .ok _ := checked_eq_ok_iff.2 ⟨by decide, rfl⟩
  exact .combine _ (by decide) (.atomic (by decide) _)
    (.source (by rintro _ ⟨⟩) hsmall)

theorem pure_positiveSmall : positiveSmall.Pure ∅ := by
  refine Fin.forall_fin_two.2 ⟨by rintro _ ⟨⟩, ?_, by rintro _ ⟨⟩⟩
  intro ρ _ p q hpq n
  have hplace := (hpq.child 0).eq
  show _ = Except.ok (Node.rename ρ (Result.atomic (p.child 0) _ _))
  rw [Result.atomic, Node.rename_mk, hplace]
  rfl

/-- The first side is a chain of the operator itself, so the composite has
three operands where the combined results have two. -/
theorem combine_saysSame_positiveSmall :
    ∃ ra rb : Result String,
      (positiveSmall.evaluate (.root 4) 3).outcome = .ok ra ∧
        (even.evaluate (.root 5) 3).outcome = .ok rb ∧
        (∃ r, ((combine (.root 7) .andAlso positiveSmall even).evaluate
            (.root 6) 3).outcome = .ok r ∧
          r.SaysSame (Result.combine (.root 8) .andAlso ra rb)) ∧
        ∃ r, ((negation (.root 7) positiveSmall).evaluate
            (.root 6) 3).outcome = .ok r ∧
          r.SaysSame (Result.negation (.root 8) ra) := by
  have hbuilt : even.Built := .atomic (by decide) _
  have hpure : even.Pure ∅ := by rintro _ ⟨⟩
  refine ⟨_, _, rfl, rfl, ?_⟩
  exact combine_saysSame built_positiveSmall hbuilt pure_positiveSmall hpure
    (by decide) (by decide) (by decide) (by decide) (fun _ h => nomatch h)
    rfl rfl _ _

end Specification

end Rationale
