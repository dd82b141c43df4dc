import Mathlib.Data.List.Nodup
import Mathlib.Data.List.Perm.Subperm
import Rationale.Proofs.Traced
import Rationale.Quantifier

/-!
# Sufficiency of causes

The causes that an operator or a quantifier selects are enough for its
outcome: whatever becomes of the others, the outcome stays.  There are
three groups.

* Positions.  `mem_positionsOf` and `mem_allPositions` say which positions
  are selected, and `pick_positionsOf` and `pick_allPositions` which
  members of a list stand there.
* Reach.  `Operator.take_reach` says that an operator looks at its operands
  up to the first one that settles it, and `Operator.holds_upTo` that it
  need not look further.
* Sufficiency.  `Operator.satisfied_of_causes` and
  `Quantifier.satisfied_of_causes` are the results.
-/

namespace Rationale

/-! ## Positions -/

theorem mem_positionsOf {wanted : Bool} {outcomes : List Bool} {i : Nat} :
    i ∈ positionsOf wanted outcomes ↔ outcomes[i]? = some wanted := by
  rw [positionsOf, List.mem_filter, List.mem_range, decide_eq_true_iff]
  constructor
  · exact And.right
  · intro h
    exact ⟨(List.getElem?_eq_some_iff.1 h).1, h⟩

theorem mem_allPositions {outcomes : List Bool} {i : Nat} :
    i ∈ allPositions outcomes ↔ i < outcomes.length := List.mem_range

theorem lt_length_of_mem_positions {outcomes : List Bool} {i : Nat}
    (h : i ∈ allPositions outcomes ∨
      ∃ wanted, i ∈ positionsOf wanted outcomes) : i < outcomes.length := by
  rcases h with hall | ⟨wanted, hwanted⟩
  · exact mem_allPositions.1 hall
  · exact (List.getElem?_eq_some_iff.1 (mem_positionsOf.1 hwanted)).1

/-- All positions of a list pick the whole list. -/
theorem pick_range {α : Type} (xs : List α) :
    ((List.range xs.length).filterMap fun i => xs[i]?) = xs := by
  induction xs with
  | nil => rfl
  | cons x xs ih =>
    rw [List.length_cons, List.range_succ_eq_map, List.filterMap_cons,
      List.filterMap_map]
    simpa [Function.comp_def] using ih

theorem pick_allPositions {α : Type} (f : α → Bool) (xs : List α) :
    ((allPositions (xs.map f)).filterMap fun i => xs[i]?) = xs := by
  rw [allPositions, List.length_map]
  exact pick_range xs

/-- The positions of an outcome pick the members with that outcome. -/
theorem pick_positionsOf {α : Type} (f : α → Bool) (wanted : Bool)
    (xs : List α) :
    ((positionsOf wanted (xs.map f)).filterMap fun i => xs[i]?) =
      xs.filter fun x => f x = wanted := by
  conv_rhs => rw [← pick_range xs]
  rw [positionsOf, List.length_map, List.filterMap_filter,
    List.filter_filterMap]
  congr 1
  funext i
  rw [List.getElem?_map]
  cases xs[i]? with
  | none => simp
  | some x => simp [Option.filter]

/-- Two lists of one length that agree wherever the first has a member are
the same. -/
theorem eq_of_getElem?_agree {α : Type} {xs ys : List α}
    (hlength : ys.length = xs.length)
    (h : ∀ i < xs.length, ys[i]? = xs[i]?) : ys = xs := by
  apply List.ext_getElem?
  intro i
  by_cases hi : i < xs.length
  · exact h i hi
  · rw [List.getElem?_eq_none (by omega), List.getElem?_eq_none (by omega)]

/-! ## Reach -/

namespace Operator

/-- Whether an outcome settles the operator. -/
def settles (op : Operator) (outcome : Bool) : Bool :=
  op.settledBy = some outcome

theorem settles_andAlso : settles .andAlso = Bool.not := by
  funext outcome
  cases outcome <;> rfl

theorem settles_orElse : settles .orElse = id := by
  funext outcome
  cases outcome <;> rfl

/-- Of two outcomes, only one settles an operator that can be settled. -/
theorem settles_injective {op : Operator} (h : op.shortCircuits) :
    Function.Injective op.settles := by
  cases op with
  | and | or | xor | not => cases h
  | andAlso =>
    rw [settles_andAlso]
    exact fun _ _ => Bool.not_inj
  | orElse =>
    rw [settles_orElse]
    exact Function.injective_id

/-- An operator looks at its operands up to the first one that settles
it. -/
theorem take_reach (op : Operator) (outcomes : List Bool) :
    outcomes.take (op.reach outcomes) = upTo op.settles outcomes := by
  induction outcomes with
  | nil => rfl
  | cons outcome rest ih =>
    rw [reach] at ih ⊢
    rw [List.findIdx?_cons, upTo, settles]
    by_cases h : op.settledBy = some outcome
    · simp [h]
    · simp only [h, decide_false, Bool.false_eq_true, if_false]
      cases hrest : rest.findIdx? fun outcome =>
          op.settledBy = some outcome with
      | none =>
        rw [hrest] at ih
        simpa using ih
      | some i =>
        rw [hrest] at ih
        simpa using ih

theorem upTo_settles_eq_self {op : Operator} (h : op.settledBy = none)
    (outcomes : List Bool) : upTo op.settles outcomes = outcomes :=
  upTo_eq_self fun _ _ => by simp [settles, h]

/-- The operands behind the one that settles an operator do not matter. -/
theorem holds_upTo (op : Operator) (outcomes : List Bool) :
    op.holds (upTo op.settles outcomes) = op.holds outcomes := by
  cases op with
  | and | or | xor | not => rw [upTo_settles_eq_self rfl]
  | andAlso =>
    induction outcomes with
    | nil => rfl
    | cons outcome rest ih =>
      cases outcome with
      | false => rfl
      | true => simpa [holds, upTo, settles, settledBy] using ih
  | orElse =>
    induction outcomes with
    | nil => rfl
    | cons outcome rest ih =>
      cases outcome with
      | true => rfl
      | false => simpa [holds, upTo, settles, settledBy] using ih

/-- An operator is settled by the operands that settle it. -/
theorem settles_holds (op : Operator) (outcomes : List Bool) :
    op.settles (op.holds outcomes) = outcomes.any op.settles := by
  cases op with
  | and | or | xor | not => simp [settles, settledBy]
  | andAlso =>
    rw [settles_andAlso, holds, List.not_all_eq_any_not]
    rfl
  | orElse => rw [settles_orElse, holds, id]

/-- An operator that takes all operands takes those that it looks at. -/
theorem accepts_upTo {op : Operator} {outcomes : List Bool}
    (h : op.accepts outcomes.length) :
    op.accepts (upTo op.settles outcomes).length := by
  cases op with
  | and | or | xor | not =>
    rw [upTo_settles_eq_self rfl]
    exact h
  | andAlso | orElse =>
    cases outcomes with
    | nil => exact h
    | cons outcome rest =>
      rw [upTo]
      split
      · rfl
      · simp [accepts]

theorem pos_of_accepts {op : Operator} {count : Nat}
    (h : op.accepts count) : 0 < count := by
  cases count with
  | zero => cases op <;> cases h
  | succ count => exact Nat.succ_pos count

/-- A binary operator takes the operands of two sides together: one of each
side, or any number of them if it makes chains. -/
theorem accepts_add {op : Operator} (hbinary : op ≠ .not)
    {count count' : Nat} (hpos : 0 < count)
    (hpair : op.isAssociative = false → count = 1 ∧ count' = 1) :
    op.accepts (count + count') := by
  cases op with
  | not => exact absurd rfl hbinary
  | xor =>
    obtain ⟨rfl, rfl⟩ := hpair rfl
    rfl
  | and | or | andAlso | orElse =>
    simp only [accepts, decide_eq_true_eq]
    omega

end Operator

/-- An operator applied to outcomes, in terms of those it looks at. -/
theorem determine_eq (op : Operator) (outcomes : List Bool) :
    determine op outcomes =
      { satisfied := op.holds outcomes
        evaluated := (upTo op.settles outcomes).length
        causes := op.causes (upTo op.settles outcomes) } := by
  have hreach : (upTo op.settles outcomes).length = op.reach outcomes := by
    rw [← op.take_reach, List.length_take, Nat.min_eq_left]
    rw [Operator.reach]
    split
    · rename_i i hi
      exact (List.findIdx?_eq_some_iff_findIdx_eq.1 hi).1
    · exact Nat.le_refl _
  rw [determine, op.take_reach, op.holds_upTo, hreach]

/-! ## Sufficiency -/

namespace Operator

theorem holds_of_conjunction {op : Operator} (h : op.family = .conjunction)
    (outcomes : List Bool) : op.holds outcomes = outcomes.all id := by
  cases op <;> first | rfl | simp [family] at h

theorem holds_of_disjunction {op : Operator} (h : op.family = .disjunction)
    (outcomes : List Bool) : op.holds outcomes = outcomes.any id := by
  cases op <;> first | rfl | simp [family] at h

/-- A conjunction looks past every true operand. -/
theorem settles_true_of_conjunction {op : Operator}
    (h : op.family = .conjunction) : op.settles true = false := by
  cases op <;> first | rfl | simp [family] at h

/-- A disjunction looks past every false operand. -/
theorem settles_false_of_disjunction {op : Operator}
    (h : op.family = .disjunction) : op.settles false = false := by
  cases op <;> first | rfl | simp [family] at h

theorem causes_of_conjunction {op : Operator} (h : op.family = .conjunction)
    (outcomes : List Bool) :
    op.causes outcomes =
      if outcomes.all id then allPositions outcomes
      else positionsOf false outcomes := by
  cases op <;> first | rfl | simp [family] at h

theorem causes_of_disjunction {op : Operator} (h : op.family = .disjunction)
    (outcomes : List Bool) :
    op.causes outcomes =
      if outcomes.any id then positionsOf true outcomes
      else allPositions outcomes := by
  cases op <;> first | rfl | simp [family] at h

end Operator

/-- Every cause is the position of an operand. -/
theorem Operator.lt_of_mem_causes {op : Operator} {outcomes : List Bool}
    {i : Nat} (h : i ∈ op.causes outcomes) : i < outcomes.length := by
  have hsome : i ∈ allPositions outcomes ∨
      ∃ wanted, i ∈ positionsOf wanted outcomes := by
    cases op with
    | and | andAlso =>
      simp only [causes] at h
      split at h
      · exact Or.inl h
      · exact Or.inr ⟨_, h⟩
    | or | orElse =>
      simp only [causes] at h
      split at h
      · exact Or.inr ⟨_, h⟩
      · exact Or.inl h
    | xor | not => exact Or.inl h
  exact lt_length_of_mem_positions hsome

/-- The members that are looked at keep their positions. -/
theorem getElem?_of_upTo {ι : Type} {stop : ι → Bool} {xs : List ι} {i : Nat}
    {x : ι} (h : (upTo stop xs)[i]? = some x) : xs[i]? = some x := by
  obtain ⟨rest, hrest⟩ := upTo_isPrefix stop xs
  rw [← hrest, List.getElem?_append_left (List.getElem?_eq_some_iff.1 h).1]
  exact h

theorem Operator.holds_of_causes_conjunction {op : Operator}
    {outcomes outcomes' : List Bool} (hfamily : op.family = .conjunction)
    (hlength : outcomes'.length = outcomes.length)
    (h : ∀ i ∈ op.causes (upTo op.settles outcomes),
      outcomes'[i]? = outcomes[i]?) :
    op.holds outcomes' = op.holds outcomes := by
  rw [holds_of_conjunction hfamily, holds_of_conjunction hfamily]
  rw [causes_of_conjunction hfamily] at h
  cases hall : outcomes.all id with
  | true =>
    have hself : upTo op.settles outcomes = outcomes := by
      refine upTo_eq_self fun outcome hmem => ?_
      have htrue : outcome = true := List.all_eq_true.1 hall outcome hmem
      rw [htrue, settles_true_of_conjunction hfamily]
    rw [hself, if_pos hall] at h
    rw [eq_of_getElem?_agree hlength fun i hi => h i (mem_allPositions.2 hi),
      hall]
  | false =>
    have hlooked : (upTo op.settles outcomes).all id = false := by
      rw [← holds_of_conjunction hfamily, holds_upTo,
        holds_of_conjunction hfamily, hall]
    rw [hlooked, if_neg Bool.false_ne_true] at h
    obtain ⟨outcome, hmem, hfalse⟩ := List.all_eq_false.1 hlooked
    obtain ⟨i, hi⟩ := List.mem_iff_getElem?.1 hmem
    rw [show outcome = false by simpa using hfalse] at hi
    have hi' := h i (mem_positionsOf.2 hi)
    rw [getElem?_of_upTo hi] at hi'
    exact List.all_eq_false.2 ⟨false, List.mem_of_getElem? hi', by simp⟩

theorem Operator.holds_of_causes_disjunction {op : Operator}
    {outcomes outcomes' : List Bool} (hfamily : op.family = .disjunction)
    (hlength : outcomes'.length = outcomes.length)
    (h : ∀ i ∈ op.causes (upTo op.settles outcomes),
      outcomes'[i]? = outcomes[i]?) :
    op.holds outcomes' = op.holds outcomes := by
  rw [holds_of_disjunction hfamily, holds_of_disjunction hfamily]
  rw [causes_of_disjunction hfamily] at h
  cases hany : outcomes.any id with
  | true =>
    have hlooked : (upTo op.settles outcomes).any id = true := by
      rw [← holds_of_disjunction hfamily, holds_upTo,
        holds_of_disjunction hfamily, hany]
    rw [if_pos hlooked] at h
    obtain ⟨outcome, hmem, htrue⟩ := List.any_eq_true.1 hlooked
    obtain ⟨i, hi⟩ := List.mem_iff_getElem?.1 hmem
    rw [show outcome = true by simpa using htrue] at hi
    have hi' := h i (mem_positionsOf.2 hi)
    rw [getElem?_of_upTo hi] at hi'
    exact List.any_eq_true.2 ⟨true, List.mem_of_getElem? hi', rfl⟩
  | false =>
    have hself : upTo op.settles outcomes = outcomes := by
      refine upTo_eq_self fun outcome hmem => ?_
      have hfalse : outcome = false := by
        simpa using List.any_eq_false.1 hany outcome hmem
      rw [hfalse, settles_false_of_disjunction hfamily]
    rw [hself, hany, if_neg Bool.false_ne_true] at h
    rw [eq_of_getElem?_agree hlength fun i hi => h i (mem_allPositions.2 hi),
      hany]

/-- Outcomes that agree with the first ones at all causes have the same
outcome under the operator. -/
theorem Operator.satisfied_of_causes {op : Operator}
    {outcomes outcomes' : List Bool}
    (hlength : outcomes'.length = outcomes.length)
    (h : ∀ i ∈ (determine op outcomes).causes,
      outcomes'[i]? = outcomes[i]?) :
    (determine op outcomes').satisfied = (determine op outcomes).satisfied := by
  simp only [determine_eq] at h ⊢
  cases hfamily : op.family with
  | conjunction => exact holds_of_causes_conjunction hfamily hlength h
  | disjunction => exact holds_of_causes_disjunction hfamily hlength h
  | exclusive | negation =>
    have hnone : op.settledBy = none := by
      cases op <;> first | rfl | simp [family] at hfamily
    have hcauses : op.causes outcomes = allPositions outcomes := by
      cases op <;> first | rfl | simp [family] at hfamily
    rw [upTo_settles_eq_self hnone, hcauses] at h
    rw [eq_of_getElem?_agree hlength fun i hi => h i (mem_allPositions.2 hi)]

/-- Every cause is the position of an item. -/
theorem Quantifier.lt_of_mem_causes {q : Quantifier} {outcomes : List Bool}
    {i : Nat} (h : i ∈ (q.select outcomes).causes) : i < outcomes.length := by
  have hsome : i ∈ allPositions outcomes ∨
      ∃ wanted, i ∈ positionsOf wanted outcomes := by
    cases q with
    | all | any | none | atMost n =>
      simp only [select] at h
      split at h
      · exact Or.inl h
      · exact Or.inr ⟨_, h⟩
    | atLeast n =>
      cases n with
      | zero => exact Or.inl h
      | succ n =>
        simp only [select] at h
        split at h
        · exact Or.inr ⟨_, h⟩
        · exact Or.inl h
    | exactly n =>
      simp only [select] at h
      split at h
      · exact Or.inl h
      · dsimp only at h
        split at h
        · exact Or.inr ⟨_, h⟩
        · exact Or.inr ⟨_, h⟩
  exact lt_length_of_mem_positions hsome

/-- Positions that keep an outcome are as many as before, or more. -/
theorem length_positionsOf_le {wanted : Bool} {outcomes outcomes' : List Bool}
    (h : ∀ i ∈ positionsOf wanted outcomes, outcomes'[i]? = outcomes[i]?) :
    (positionsOf wanted outcomes).length ≤
      (positionsOf wanted outcomes').length := by
  have hnodup : (positionsOf wanted outcomes).Nodup :=
    List.Nodup.filter _ List.nodup_range
  refine (List.subperm_of_subset hnodup fun i hi => ?_).length_le
  rw [mem_positionsOf, h i hi]
  exact mem_positionsOf.1 hi

/-- Every position has one of the two outcomes. -/
theorem length_positionsOf_add (outcomes : List Bool) :
    (positionsOf true outcomes).length + (positionsOf false outcomes).length =
      outcomes.length := by
  have hfalse : positionsOf false outcomes =
      (List.range outcomes.length).filter
        fun i => !decide (outcomes[i]? = some true) := by
    refine List.filter_congr fun i hi => ?_
    have hlt : i < outcomes.length := List.mem_range.1 hi
    rw [List.getElem?_eq_getElem hlt]
    cases outcomes[i] <;> rfl
  rw [hfalse, positionsOf, ← List.length_eq_length_filter_add,
    List.length_range]

/-- Outcomes that agree with the first ones at all causes are judged
alike. -/
theorem Quantifier.satisfied_of_causes {q : Quantifier}
    {outcomes outcomes' : List Bool}
    (hlength : outcomes'.length = outcomes.length)
    (h : ∀ i ∈ (q.select outcomes).causes, outcomes'[i]? = outcomes[i]?) :
    (q.select outcomes').satisfied = (q.select outcomes).satisfied := by
  have hevery (hcauses : (q.select outcomes).causes = allPositions outcomes) :
      outcomes' = outcomes := by
    rw [hcauses] at h
    exact eq_of_getElem?_agree hlength fun i hi => h i (mem_allPositions.2 hi)
  have hkept (wanted : Bool)
      (hcauses : (q.select outcomes).causes = positionsOf wanted outcomes) :
      (positionsOf wanted outcomes).length ≤
        (positionsOf wanted outcomes').length :=
    length_positionsOf_le fun i hi => h i (hcauses ▸ hi)
  have hempty (wanted : Bool)
      (hcauses : (q.select outcomes).causes = positionsOf wanted outcomes)
      (hsome : (positionsOf wanted outcomes).isEmpty = false) :
      (positionsOf wanted outcomes').isEmpty = false := by
    rw [List.isEmpty_eq_false_iff, ← List.length_pos_iff] at hsome ⊢
    exact Nat.lt_of_lt_of_le hsome (hkept wanted hcauses)
  have hsum := length_positionsOf_add outcomes
  have hsum' := length_positionsOf_add outcomes'
  cases q with
  | all =>
    cases hf : (positionsOf false outcomes).isEmpty with
    | true => rw [hevery (by simp [select, hf])]
    | false => simp [select, hf, hempty false (by simp [select, hf]) hf]
  | any =>
    cases ht : (positionsOf true outcomes).isEmpty with
    | true => rw [hevery (by simp [select, ht])]
    | false => simp [select, ht, hempty true (by simp [select, ht]) ht]
  | none =>
    cases ht : (positionsOf true outcomes).isEmpty with
    | true => rw [hevery (by simp [select, ht])]
    | false => simp [select, ht, hempty true (by simp [select, ht]) ht]
  | atLeast n =>
    cases n with
    | zero => rfl
    | succ n =>
      by_cases hn : n + 1 ≤ (positionsOf true outcomes).length
      · have hle := hkept true (by simp [select, hn])
        simp [select, hn, Nat.le_trans hn hle]
      · rw [hevery (by simp [select, hn])]
  | atMost n =>
    by_cases hn : (positionsOf true outcomes).length ≤ n
    · rw [hevery (by simp [select, hn])]
    · have hle := hkept true (by simp [select, hn])
      have hn' : ¬(positionsOf true outcomes').length ≤ n := by omega
      simp [select, hn, hn']
  | exactly n =>
    by_cases hn : (positionsOf true outcomes).length = n
    · rw [hevery (by simp [select, hn])]
    · have hn' : (positionsOf true outcomes').length ≠ n := by
        by_cases hlt : n < (positionsOf true outcomes).length
        · have hle := hkept true (by simp [select, hn, hlt])
          omega
        · have hle := hkept false (by simp [select, hn, hlt])
          omega
      simp [select, hn, hn']

end Rationale
