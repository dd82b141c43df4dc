import Rationale.Proofs.Built
import Rationale.Proofs.Evidence

/-!
# Decisions without an explanation

A decision is explained if a node that is reached along its causes has an
assertion.  There are four groups.

* Selected positions.  Operators select at least one operand, and by
  `Quantifier.all_of_causes_eq_nil` a quantifier selects at least one item
  unless all of them are satisfied.
* Explained results.  `Result.assertions_ne_nil_iff` says which results have
  an explanation.  `Result.Mute` are the nodes that say nothing and rest on
  nothing.
* Declarations.  A predicate declares an assertion whatever its factories
  make, and a quantifier if they make values.
* Evaluations.  `explained_of_evaluate` says that only a mute node leaves a
  decision without an explanation.  `allEven` makes one.
-/

namespace Rationale

/-! ## Selected positions -/

theorem positionsOf_eq_nil_iff {wanted : Bool} {outcomes : List Bool} :
    positionsOf wanted outcomes = [] ↔ wanted ∉ outcomes := by
  rw [List.eq_nil_iff_forall_not_mem, List.mem_iff_getElem?, not_exists]
  exact forall_congr' fun i => not_congr mem_positionsOf

theorem allPositions_eq_nil_iff {outcomes : List Bool} :
    allPositions outcomes = [] ↔ outcomes = [] := by
  rw [allPositions, List.range_eq_nil, List.length_eq_zero_iff]

/-- Positions within a list pick something. -/
theorem pick_ne_nil {α : Type} {xs : List α} {positions : List Nat}
    (hpositions : ∀ i ∈ positions, i < xs.length) (hne : positions ≠ []) :
    (positions.filterMap fun i => xs[i]?) ≠ [] := by
  obtain ⟨i, hi⟩ := List.exists_mem_of_ne_nil _ hne
  have hlt : i < xs.length := hpositions i hi
  exact List.ne_nil_of_mem
    (List.mem_filterMap.2 ⟨i, hi, List.getElem?_eq_getElem hlt⟩)

/-- An operator is explained by at least one operand. -/
theorem Operator.causes_ne_nil (op : Operator) {outcomes : List Bool}
    (h : outcomes ≠ []) : op.causes outcomes ≠ [] := by
  have hevery : allPositions outcomes ≠ [] := by
    rwa [ne_eq, allPositions_eq_nil_iff]
  cases op with
  | xor | not => exact hevery
  | and | andAlso =>
    rw [causes_of_conjunction rfl]
    split
    · exact hevery
    · rename_i hsome
      simpa [positionsOf_eq_nil_iff] using hsome
  | or | orElse =>
    rw [causes_of_disjunction rfl]
    split
    · rename_i hsome
      simpa [positionsOf_eq_nil_iff] using hsome
    · exact hevery

/-- A quantifier that no item explains has none that is not satisfied. -/
theorem Quantifier.all_of_causes_eq_nil {q : Quantifier}
    {outcomes : List Bool} (h : (q.select outcomes).causes = []) :
    ∀ outcome ∈ outcomes, outcome = true := by
  have hevery (h : allPositions outcomes = []) :
      positionsOf false outcomes = [] := by
    rw [allPositions_eq_nil_iff] at h
    rw [h]
    rfl
  have htrues {n : Nat} (h : positionsOf true outcomes = [])
      (hlt : n < (positionsOf true outcomes).length) : False := by
    rw [h] at hlt
    exact Nat.not_lt_zero n hlt
  have hnone : positionsOf false outcomes = [] := by
    cases q with
    | all =>
      simp only [select] at h
      split at h
      · exact hevery h
      · exact h
    | any | none =>
      simp only [select] at h
      split at h
      · exact hevery h
      · rename_i hsome
        exact absurd (List.isEmpty_iff.2 h) hsome
    | atLeast n =>
      cases n with
      | zero => exact hevery h
      | succ n =>
        simp only [select] at h
        split at h
        · rename_i hle
          exact (htrues h hle).elim
        · exact hevery h
    | atMost n =>
      simp only [select] at h
      split at h
      · exact hevery h
      · rename_i hlt
        exact (htrues h (Nat.lt_of_not_le hlt)).elim
    | exactly n =>
      simp only [select] at h
      split at h
      · exact hevery h
      · dsimp only at h
        split at h
        · rename_i hlt
          exact (htrues h hlt).elim
        · exact h
  intro outcome houtcome
  cases outcome with
  | true => rfl
  | false => exact absurd houtcome (positionsOf_eq_nil_iff.1 hnone)

/-! ## Explained results -/

namespace Result

variable {τ : Type}

/-- Whether a node says nothing and rests on nothing: it judges items that
are all satisfied, and none of them explains the judgement. -/
structure Mute (r : Result τ) : Prop where
  kind : r.label.kind = .declared
  assertions : r.label.assertions = []
  causes : r.causes = []
  items : ∀ item ∈ r.operands, satisfied item

variable [DecidableEq τ]

/-- A result has an explanation if something that is reached has one. -/
theorem assertions_ne_nil_iff {r : Result τ} :
    r.assertions ≠ [] ↔
      ∃ n, r.Reaches .causes n ∧ n.label.assertions ≠ [] := by
  induction r using Node.induction_below with
  | h r ih =>
    rw [Node.exists_reaches_iff]
    by_cases hsilent : r.label.assertions = []
    · have hcauses : assertions r ≠ [] ↔
          ∃ cause ∈ r.causes, assertions cause ≠ [] := by
        rw [assertions_of_silent hsilent, ne_eq, eraseDups_eq_nil_iff,
          List.flatMap_eq_nil_iff]
        simp
      rw [hcauses, or_iff_right (not_not_intro hsilent)]
      refine exists_congr fun cause => and_congr_right fun hcause => ?_
      exact ih .causes cause hcause
    · rw [assertions_of_declares hsilent, ne_eq, eraseDups_eq_nil_iff]
      exact iff_of_true hsilent (Or.inl hsilent)

omit [DecidableEq τ] in
/-- The result of an operator rests on causes. -/
theorem causes_applied_ne_nil {operands : List (Result τ)}
    (h : operands ≠ []) (place : Place) (op : Operator) (statement : String)
    (style : Notation) :
    (applied place op operands statement style).causes ≠ [] := by
  have hne : (reached op operands).map satisfied ≠ [] := by
    rw [ne_eq, List.map_eq_nil_iff]
    exact reached_ne_nil op h
  rw [applied_causes, causesAmong]
  refine pick_ne_nil (fun i hi => ?_) (op.causes_ne_nil hne)
  simpa using Operator.lt_of_mem_causes hi

omit [DecidableEq τ] in
/-- Causes lead to a node without causes. -/
theorem exists_last (r : Result τ) :
    ∃ n, r.Reaches .causes n ∧ n.causes = [] := by
  induction r using Node.induction_below with
  | h r ih =>
    cases hcauses : r.causes with
    | nil => exact ⟨r, Node.reaches_iff.2 (Or.inl rfl), hcauses⟩
    | cons cause rest =>
      have hcause : cause ∈ r.next .causes := by
        rw [Node.next, hcauses]
        exact List.mem_cons_self ..
      obtain ⟨n, hn, hlast⟩ := ih .causes cause hcause
      exact ⟨n, hn.step hcause, hlast⟩

end Result

/-! ## Declarations -/

section Declarations

variable {τ : Type} [Metadata τ]

theorem assertionsFor_ne_nil (values : List τ) (fallback : String) :
    assertionsFor values fallback ≠ [] := by
  rw [assertionsFor]
  split
  · exact List.cons_ne_nil _ _
  · exact List.cons_ne_nil _ _

theorem Declaration.assertions_ofValues_ne_nil {values : List τ}
    (h : values ≠ []) (statement : String) (style : Notation)
    (satisfied : Bool) :
    (ofValues statement values style satisfied).assertions ≠ [] := by
  have hsome : ¬values.isEmpty := by simpa using h
  rw [ofValues, if_neg hsome]
  exact assertionsFor_ne_nil values _

end Declarations

namespace Specification

variable {τ ν M : Type} [Metadata τ]

/-- A predicate declares an assertion. -/
theorem assertions_declare_ne_nil {heading : Heading}
    {branches : Option (Branches (Factory τ ν M))} {m : M} {satisfied : Bool}
    {declaration : Declaration τ}
    (h : (declare heading branches m satisfied none).outcome =
      .ok declaration) : declaration.assertions ≠ [] := by
  rw [declare_eq] at h
  rcases exists_of_declareBy h with ⟨-, rfl⟩ | ⟨-, values, -, -, rfl⟩
  · exact List.cons_ne_nil _ _
  · split
    · exact List.cons_ne_nil _ _
    · rename_i hvalues
      have hne : values ≠ [] := by simpa using hvalues
      exact Declaration.assertions_ofValues_ne_nil hne _ _ _

/-- A quantifier declares an assertion if its factories make values. -/
theorem assertions_declareSnapshot_ne_nil {I : Type} {heading : Heading}
    {branches : Option (Branches (SnapshotFactory τ ν I))}
    (hvalues : ∀ pair ∈ branches, ∀ satisfied snapshot values,
      ((pair.taken satisfied).resolve snapshot).outcome = .ok values →
        values ≠ [])
    {satisfied : Bool} {snapshot : Snapshot τ I} {declaration : Declaration τ}
    (h : (declareSnapshot heading branches satisfied snapshot).outcome =
      .ok declaration) : declaration.assertions ≠ [] := by
  rw [declareSnapshot_eq] at h
  rcases exists_of_declareBy h with ⟨-, rfl⟩ | ⟨x, values, hx, hresolved, rfl⟩
  · exact List.cons_ne_nil _ _
  · obtain ⟨pair, hpair, rfl⟩ := Option.mem_map.1 hx
    have hne := hvalues pair hpair _ _ values hresolved
    exact Declaration.assertions_ofValues_ne_nil hne _ _ _

/-! ## Evaluations -/

/-- Whether no part of the specification is a function that makes
results. -/
def FunctionFree : {M : Type} → Specification τ ν M → Prop
  | _, .atomic .. => True
  | _, .wrapper _ inner _ => inner.FunctionFree
  | _, .computed .. => False
  | _, .composite _ _ _ operands => ∀ i, (operands i).FunctionFree
  | _, .quantified _ _ item _ => item.FunctionFree

/-- Whether the factories of each quantifier make at least one value. -/
def Voiced : {M : Type} → Specification τ ν M → Prop
  | _, .atomic .. => True
  | _, .wrapper _ inner _ => inner.Voiced
  | _, .computed .. => True
  | _, .composite _ _ _ operands => ∀ i, (operands i).Voiced
  | _, .quantified _ _ item branches =>
    item.Voiced ∧ ∀ pair ∈ branches, ∀ satisfied snapshot values,
      ((pair.taken satisfied).resolve snapshot).outcome = .ok values →
        values ≠ []

omit [Metadata τ] in
/-- A quantifier that says nothing and rests on nothing is mute. -/
theorem mute_judged {place : Place} {quantifier : Quantifier}
    {results : List (Result τ)} {declaration : Declaration τ}
    (hsilent : (judged place quantifier results
      declaration).label.assertions = [])
    (hlast : (judged place quantifier results declaration).causes = []) :
    (judged place quantifier results declaration).Mute := by
  have hcauses : (quantifier.select
      (results.map Result.satisfied)).causes = [] := by
    by_contra hne
    exact pick_ne_nil lt_of_mem_select hne hlast
  refine ⟨rfl, hsilent, hlast, fun item hitem => ?_⟩
  exact Quantifier.all_of_causes_eq_nil hcauses _ (List.mem_map_of_mem hitem)

/-- The last nodes on the causal paths of an evaluation have assertions.  If
one has none, then it is mute, and a factory of its quantifier has made no
value. -/
theorem mute_of_silent {s : Specification τ ν M} (hfree : s.FunctionFree)
    {place : Place} {m : M} {r n : Result τ}
    (hr : (s.evaluate place m).outcome = .ok r) (hn : r.Reaches .causes n)
    (hsilent : n.label.assertions = []) (hlast : n.causes = []) :
    n.Mute ∧ ¬s.Voiced := by
  induction s generalizing place r with
  | atomic heading predicate branches =>
    obtain ⟨satisfied, -, declaration, hdeclaration, rfl⟩ :=
      evaluate_atomic_eq_ok_iff.1 hr
    rcases Node.reaches_iff.1 hn with rfl | ⟨b, hb, -⟩
    · exact absurd hsilent (assertions_declare_ne_nil hdeclaration)
    · cases hb
  | wrapper heading inner branches ih =>
    obtain ⟨result, hresult, declaration, -, rfl⟩ :=
      evaluate_wrapper_eq_ok_iff.1 hr
    rcases Node.reaches_iff.1 hn with rfl | ⟨b, hb, hbn⟩
    · cases hlast
    · obtain rfl := List.mem_singleton.1 hb
      exact ih hfree hresult hbn
  | computed heading function branches => exact hfree.elim
  | composite heading op count operands ih =>
    obtain ⟨results, hresults, haccepts, rfl⟩ :=
      evaluate_composite_eq_ok_iff.1 hr
    rcases Node.reaches_iff.1 hn with rfl | ⟨b, hb, hbn⟩
    · have hne := Result.ne_nil_of_accepts haccepts
      exact (Result.causes_applied_ne_nil hne _ _ _ _ hlast).elim
    · have hcause : b ∈ (Result.applied place op results heading.statement
          heading.style).causes := hb
      have hmem : b ∈ results := Result.mem_of_mem_causes_applied hcause
      obtain ⟨i, -, hi⟩ := Traced.exists_of_mem_runUntil _ _ hresults hmem
      obtain ⟨hmute, hsome⟩ := ih i (hfree i) hi hbn
      exact ⟨hmute, fun hvoiced => hsome (hvoiced i)⟩
  | quantified heading quantifier item branches ih =>
    obtain ⟨results, hresults, declaration, hdeclaration, rfl⟩ :=
      evaluate_quantified_eq_ok_iff.1 hr
    rcases Node.reaches_iff.1 hn with rfl | ⟨b, hb, hbn⟩
    · refine ⟨mute_judged hsilent hlast, fun hvoiced => ?_⟩
      exact assertions_declareSnapshot_ne_nil hvoiced.2 hdeclaration hsilent
    · have hcause : b ∈ (judged place quantifier results
          declaration).causes := hb
      have hmem : b ∈ results := Result.mem_of_mem_causes_ofPositions hcause
      obtain ⟨entry, -, hentry⟩ :=
        Traced.exists_of_mem_runUntil _ _ hresults hmem
      obtain ⟨hmute, hsome⟩ := ih hfree hentry hbn
      exact ⟨hmute, fun hvoiced => hsome hvoiced.1⟩

variable [DecidableEq τ]

/-- A decision has an explanation if a node that is reached along causes
declares one.  This is so unless a factory of a quantifier makes no value,
and only a mute node can leave the decision without an explanation. -/
theorem explained_of_evaluate {s : Specification τ ν M}
    (hfree : s.FunctionFree) {place : Place} {m : M} {r : Result τ}
    (hr : (s.evaluate place m).outcome = .ok r) :
    (r.assertions ≠ [] ↔
      ∃ n, r.Reaches .causes n ∧ n.label.assertions ≠ []) ∧
    (s.Voiced → r.assertions ≠ []) ∧
    ((∀ n, r.Reaches .causes n → ¬Result.Mute n) → r.assertions ≠ []) := by
  have hunexplained (hnone : r.assertions = []) :
      ∃ n, r.Reaches .causes n ∧ Result.Mute n ∧ ¬s.Voiced := by
    obtain ⟨n, hn, hlast⟩ := Result.exists_last r
    have hsilent : n.label.assertions = [] := by
      by_contra hspeaks
      exact Result.assertions_ne_nil_iff.2 ⟨n, hn, hspeaks⟩ hnone
    exact ⟨n, hn, mute_of_silent hfree hr hn hsilent hlast⟩
  refine ⟨Result.assertions_ne_nil_iff, fun hvoiced hnone => ?_,
    fun hmute hnone => ?_⟩
  · obtain ⟨n, -, -, hquiet⟩ := hunexplained hnone
    exact hquiet hvoiced
  · obtain ⟨n, hn, hnmute, -⟩ := hunexplained hnone
    exact hmute n hn hnmute

/-- Lists of even numbers, with factories that make no value. -/
def allEven : Specification String Unit (List Nat) :=
  QuantifierDraft.toSpecification
    ⟨.atomic ⟨.root 0, "even", {}⟩ (fun n => pure (n % 2 == 0)) none, .all,
      some (.constants []), some (.constants [])⟩ (.root 1) "all even"

theorem built_allEven : allEven.Built :=
  .quantified (.atomic (by decide) _) (by decide)

/-- An item that is not even is the explanation. -/
theorem explained_of_evaluate_allEven :
    allEven.FunctionFree ∧ ∃ r,
      (allEven.evaluate (.root 2) [4, 3]).outcome = .ok r ∧
      (∀ n, r.Reaches .causes n → ¬Result.Mute n) ∧ r.assertions ≠ [] := by
  have hfree : allEven.FunctionFree := trivial
  obtain ⟨r, hr⟩ :
      ∃ r, (allEven.evaluate (.root 2) [4, 3]).outcome = .ok r := ⟨_, rfl⟩
  have hspeaks : ∀ n, r.Reaches .causes n → ¬Result.Mute n := by
    obtain rfl := Except.ok.inj hr
    intro n hn hmute
    rcases Node.reaches_iff.1 hn with rfl | ⟨item, hitem, hn⟩
    · cases hmute.causes
    · obtain rfl := List.mem_singleton.1 hitem
      rcases Node.reaches_iff.1 hn with rfl | ⟨other, hother, -⟩
      · cases hmute.kind
      · cases hother
  exact ⟨hfree, r, hr, hspeaks, (explained_of_evaluate hfree hr).2.2 hspeaks⟩

/-- There is nothing to say about no items. -/
theorem allEven_unexplained :
    allEven.Built ∧ allEven.FunctionFree ∧ ∃ r,
      (allEven.evaluate (.root 2) []).outcome = .ok r ∧
      r.assertions = [] ∧
      ¬∃ n, r.Reaches .causes n ∧ n.label.assertions ≠ [] := by
  obtain ⟨r, hr⟩ : ∃ r, (allEven.evaluate (.root 2) []).outcome = .ok r :=
    ⟨_, rfl⟩
  have hnone : r.assertions = [] := by
    obtain rfl := Except.ok.inj hr
    rfl
  refine ⟨built_allEven, trivial, r, hr, hnone, fun hsome => ?_⟩
  exact Result.assertions_ne_nil_iff.2 hsome hnone

end Specification

end Rationale
