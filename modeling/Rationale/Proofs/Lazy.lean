import Rationale.Proofs.Attribution
import Rationale.Proofs.Determined
import Rationale.Proofs.Runs

/-!
# Lazy and eager evaluation

A short-circuiting operator leaves operands unevaluated.  Its eager
counterpart evaluates all of them.  This module says that it does not matter
for the outcome, and that the explanation is cut off with the operands.  There
are three groups.

* Outcomes.  The three places at which an operator is cut off agree on where
  that is: `Operator.causes_upTo` restricts the causes of the eager counterpart
  to the outcomes that are looked at, and by `Operator.causes_of_settled` only
  the last of these is left where the operator is settled.
* Results.  `Result.CutShort` compares the results of the two operators, and
  `applied_cutShort` holds whichever results they are applied to.
* Evaluations.  By `lazy_refines_eager`, it does not matter either whether the
  operator stops early or its operands are left out afterwards.
-/

namespace Rationale

/-! ## Outcomes -/

/-- The outcomes at the front keep their positions. -/
theorem filter_allPositions_append (outcomes rest : List Bool) :
    (allPositions (outcomes ++ rest)).filter (· < outcomes.length) =
      allPositions outcomes := by
  have hfront : (List.range outcomes.length).filter
      (fun i => decide (i < outcomes.length)) = List.range outcomes.length :=
    List.filter_eq_self.2 fun i hi => decide_eq_true (List.mem_range.1 hi)
  have hback : ((List.range rest.length).map (outcomes.length + ·)).filter
      (fun i => decide (i < outcomes.length)) = [] := by
    refine List.filter_eq_nil_iff.2 fun i hi => ?_
    obtain ⟨j, -, rfl⟩ := List.mem_map.1 hi
    simp
  rw [allPositions, List.length_append, List.range_add, List.filter_append,
    hfront, hback, List.append_nil]
  rfl

theorem filter_positionsOf_append (wanted : Bool) (outcomes rest : List Bool) :
    (positionsOf wanted (outcomes ++ rest)).filter (· < outcomes.length) =
      positionsOf wanted outcomes := by
  have hfront := filter_allPositions_append outcomes rest
  rw [allPositions] at hfront
  rw [positionsOf, List.filter_comm, hfront, positionsOf]
  refine List.filter_congr fun i hi => ?_
  rw [List.getElem?_append_left (mem_allPositions.1 hi)]

/-- An outcome that comes last for the first time is at one position. -/
theorem positionsOf_concat {wanted : Bool} {before : List Bool}
    (h : wanted ∉ before) :
    positionsOf wanted (before ++ [wanted]) = [before.length] := by
  have hbefore : (List.range before.length).filter
      (fun i => decide ((before ++ [wanted])[i]? = some wanted)) = [] := by
    refine List.filter_eq_nil_iff.2 fun i hi => ?_
    rw [List.getElem?_append_left (List.mem_range.1 hi), decide_eq_true_iff]
    exact fun hsome => h (List.mem_of_getElem? hsome)
  rw [positionsOf, List.length_append, List.length_singleton, List.range_succ,
    List.filter_append, hbefore]
  simp

namespace Operator

/-- The operator with the same truth table that evaluates all operands. -/
def eager : Operator → Operator
  | .and | .andAlso => .and
  | .or | .orElse => .or
  | .xor => .xor
  | .not => .not

theorem settledBy_eager (op : Operator) : op.eager.settledBy = none := by
  cases op <;> rfl

theorem holds_eager (op : Operator) : op.eager.holds = op.holds := by
  cases op <;> rfl

theorem causes_eager (op : Operator) : op.eager.causes = op.causes := by
  cases op <;> rfl

/-- A short-circuiting operator takes any operands, and so does its eager
counterpart. -/
theorem accepts_of_shortCircuits {op : Operator} (hop : op.shortCircuits)
    {count : Nat} (hpos : 0 < count) :
    op.accepts count ∧ op.eager.accepts count := by
  cases op with
  | and | or | xor | not => cases hop
  | andAlso | orElse => exact ⟨decide_eq_true hpos, decide_eq_true hpos⟩

/-- What explains an operator among the outcomes that it looks at is what
explains it among all of them, as far as it looks. -/
theorem causes_upTo (op : Operator) (outcomes : List Bool) :
    op.causes (upTo op.settles outcomes) =
      (op.causes outcomes).filter
        (· < (upTo op.settles outcomes).length) := by
  have hholds := op.holds_upTo outcomes
  obtain ⟨rest, hrest⟩ := upTo_isPrefix op.settles outcomes
  have hall : allPositions (upTo op.settles outcomes) =
      (allPositions outcomes).filter
        (· < (upTo op.settles outcomes).length) := by
    rw [← filter_allPositions_append _ rest, hrest]
  have hsome (wanted : Bool) : positionsOf wanted (upTo op.settles outcomes) =
      (positionsOf wanted outcomes).filter
        (· < (upTo op.settles outcomes).length) := by
    rw [← filter_positionsOf_append wanted _ rest, hrest]
  cases op with
  | and | andAlso =>
    simp only [causes, hholds]
    split
    · exact hall
    · exact hsome false
  | or | orElse =>
    simp only [causes, hholds]
    split
    · exact hsome true
    · exact hall
  | xor | not => exact hall

/-- A settled operator is explained by the operand that settles it. -/
theorem causes_of_settled {op : Operator} {outcomes : List Bool}
    (h : op.settles (op.holds outcomes)) :
    op.causes (upTo op.settles outcomes) =
      [(upTo op.settles outcomes).length - 1] := by
  have hany : outcomes.any op.settles := op.settles_holds outcomes ▸ h
  -- Only the last outcome that is looked at settles the operator, so it is
  -- none of those before it.
  obtain ⟨before, last, hupTo, hlast, hbefore⟩ := exists_upTo_eq_concat hany
  have honly (hlast : op.settles last) : last ∉ before := by
    intro hmem
    rw [hbefore last hmem] at hlast
    cases hlast
  have hholds := op.holds_upTo outcomes
  have hlength : (before ++ [last]).length - 1 = before.length := by simp
  rw [hupTo] at hholds ⊢
  rw [hlength, ← positionsOf_concat (honly hlast)]
  cases op with
  | and | or | xor | not => cases hlast
  | andAlso =>
    rw [settles_andAlso, Bool.not_eq_true'] at h hlast
    subst hlast
    rw [causes, hholds, h]
    rfl
  | orElse =>
    rw [settles_orElse, id] at h hlast
    subst hlast
    rw [causes, hholds, h]
    rfl

end Operator

/-! ## Results -/

namespace Result

variable {τ : Type} [DecidableEq τ]

/-- The positions of the causes among the operands. -/
def causePositions (r : Result τ) : List Nat :=
  r.causes.map fun cause => r.operands.idxOf cause

/-- Where no operand occurs twice, its causes have no other positions. -/
theorem CausedAt.causePositions_eq {r : Result τ} {positions : List Nat}
    (h : r.CausedAt positions) (hnodup : r.operands.Nodup) :
    r.causePositions = positions := by
  have hposition : ∀ i ∈ positions, (r.operands[i]?).map
      (fun cause => r.operands.idxOf cause) = some i := by
    intro i hi
    have hcause : r.operands[i]? ∈ r.causes.map some :=
      h ▸ List.mem_map_of_mem hi
    obtain ⟨cause, -, hcause⟩ := List.mem_map.1 hcause
    obtain ⟨hlt, hget⟩ := List.getElem?_eq_some_iff.1 hcause.symm
    rw [← hcause, Option.map_some, ← hget, hnodup.idxOf_getElem]
  have hmapped : r.causePositions.map some = positions.map some := by
    rw [causePositions, List.map_map]
    refine Eq.trans ?_ (List.map_congr_left hposition)
    have hcauses := congrArg (List.map (Option.map fun cause =>
      r.operands.idxOf cause)) h
    rw [List.map_map, List.map_map] at hcauses
    exact hcauses.symm
  exact List.map_injective_iff.2 (Option.some_injective _) hmapped

/-- All that an operator makes of different operands is made of their
outcomes. -/
theorem applied_positions {operands : List (Result τ)}
    (hnodup : operands.Nodup) (place : Place) (op : Operator)
    (statement : String) (style : Notation) :
    (applied place op operands statement style).operands.map satisfied =
        upTo op.settles (operands.map satisfied) ∧
      (applied place op operands statement style).CausedAt
        (applied place op operands statement style).causePositions ∧
      (applied place op operands statement style).causePositions =
        op.causes (upTo op.settles (operands.map satisfied)) := by
  have hcaused := causedAt_applied place op operands statement style
  have hkept : (applied place op operands statement style).operands.Nodup := by
    rw [applied_operands]
    exact hnodup.sublist (reached_isPrefix op operands).sublist
  have hpositions := hcaused.causePositions_eq hkept
  refine ⟨?_, ?_, ?_⟩
  · rw [applied_operands, reached_map_satisfied]
  · rw [hpositions]
    exact hcaused
  · rw [hpositions, determine_eq]

/-- Over results with the same outcomes an operator looks at the same positions
and is explained by the same. -/
theorem applied_agrees {operands operands' : List (Result τ)}
    (hnodup : operands.Nodup) (hnodup' : operands'.Nodup)
    (houtcomes : operands.map satisfied = operands'.map satisfied)
    (place place' : Place) (op : Operator) (statement statement' : String)
    (style style' : Notation) :
    (applied place op operands statement style).operands.map satisfied =
        (applied place' op operands' statement' style').operands.map
          satisfied ∧
      (applied place op operands statement style).causePositions =
        (applied place' op operands' statement' style').causePositions := by
  obtain ⟨hlooked, -, hcauses⟩ :=
    applied_positions hnodup place op statement style
  obtain ⟨hlooked', -, hcauses'⟩ :=
    applied_positions hnodup' place' op statement' style'
  constructor
  · rw [hlooked, hlooked', houtcomes]
  · rw [hcauses, hcauses', houtcomes]

/-- Whether a result is another one without the operands behind the one that
settles the operator, and has the causes that are left. -/
structure CutShort (op : Operator) (short whole : Result τ) : Prop where
  satisfied : short.satisfied = whole.satisfied
  outcomes : short.operands.map Result.satisfied =
    upTo op.settles (whole.operands.map Result.satisfied)
  located : short.CausedAt short.causePositions ∧
    whole.CausedAt whole.causePositions
  causes : short.causePositions =
    whole.causePositions.filter (· < short.operands.length)
  settled : op.settles short.satisfied →
    short.causePositions = [short.operands.length - 1]

/-- A short-circuiting operator makes of some outcomes what its eager
counterpart makes of them, cut short. -/
theorem applied_cutShort {op : Operator} {operands operands' : List (Result τ)}
    (hnodup : operands.Nodup) (hnodup' : operands'.Nodup)
    (houtcomes : operands'.map satisfied = operands.map satisfied)
    (place place' : Place) (statement statement' : String)
    (style style' : Notation) :
    CutShort op (applied place op operands statement style)
      (applied place' op.eager operands' statement' style') := by
  obtain ⟨hshort, hlocated, hcauses⟩ :=
    applied_positions hnodup place op statement style
  obtain ⟨hwhole, hlocated', hcauses'⟩ :=
    applied_positions hnodup' place' op.eager statement' style'
  rw [Operator.upTo_settles_eq_self op.settledBy_eager, houtcomes]
    at hwhole hcauses'
  have hlength : (applied place op operands statement style).operands.length =
      (upTo op.settles (operands.map satisfied)).length := by
    rw [← hshort, List.length_map]
  constructor
  · rw [applied_satisfied, applied_satisfied, op.holds_eager, houtcomes]
  · rw [hshort, hwhole]
  · exact ⟨hlocated, hlocated'⟩
  · rw [hcauses, hcauses', hlength, op.causes_eager, op.causes_upTo]
  · intro hsettled
    rw [applied_satisfied] at hsettled
    rw [hcauses, hlength, Operator.causes_of_settled hsettled]

end Result

/-! ## Evaluations -/

namespace Specification

variable {τ ν M : Type}

/-- Whether operands are sure to answer alike at two places: one place is no
matter, and neither are two places that are apart if the operands are pure and
know of no result there. -/
def Comparable (operands : List (Specification τ ν M)) (p q : Place) : Prop :=
  p = q ∨ p.Apart q ∧ ∃ known : Set Place, (∀ s ∈ operands, s.Pure known) ∧
    ∀ x ∈ known, ¬p.Contains x ∧ ¬q.Contains x

variable [Metadata τ] {m : M}

theorem Comparable.exists_eq_ok {operands : List (Specification τ ν M)}
    {p q : Place} (h : Comparable operands p q) {s : Specification τ ν M}
    (hs : s ∈ operands) {i : Nat} {r : Result τ}
    (hr : (s.evaluate (p.child i) m).outcome = .ok r) :
    ∃ r', (s.evaluate (q.child i) m).outcome = .ok r' ∧
      r'.satisfied = r.satisfied := by
  rcases h with rfl | ⟨hpq, known, hpure, hfresh⟩
  · exact ⟨r, hr, rfl⟩
  · have hfixes : Place.Fixes (Place.swap hpq) known := fun x hx =>
      Place.exchange_of_not_contains (hfresh x hx).1 (hfresh x hx).2
    have hshifts : Place.Shifts (Place.swap hpq) p q :=
      Place.exchange_below_left p q
    have hmoved := maps_evaluate (hpure s hs) hfixes (hshifts.child i) m
    rw [Traced.Maps, hr] at hmoved
    exact ⟨_, hmoved, Result.satisfied_rename ..⟩

section Results

variable {operands : List (Specification τ ν M)} {place : Place}

/-- Operands on which no callback fails all have results. -/
theorem exists_results (hbuilt : ∀ s ∈ operands, s.Built) {position : Place}
    (hcalls : ∀ i : Fin operands.length, ∀ call ∈
      (operands.get i).calls position (place.child i) m,
      call.failure = none) :
    ∃ results : Fin operands.length → Result τ, ∀ i,
      ((operands.get i).evaluate (place.child i) m).outcome =
        .ok (results i) := by
  have hanswers (i : Fin operands.length) :=
    (hbuilt _ (operands.get_mem i)).evaluate_eq_ok_iff_calls position
      (place.child i) m
  choose results hresults using fun i => (hanswers i).2 (hcalls i)
  exact ⟨results, hresults⟩

variable {results : Fin operands.length → Result τ}

/-- The results of the operands of a composite differ, and each shows what
its operand shows. -/
theorem results_show (h : ∀ i,
    ((operands.get i).evaluate (place.child i) m).outcome =
      .ok (results i)) :
    (List.ofFn results).Nodup ∧
      (List.ofFn results).map Result.operand = operands.map operand := by
  constructor
  · refine List.nodup_ofFn.2 fun i j hij => Fin.val_injective ?_
    apply place.child_injective
    rw [← (evaluate_shows (h i)).1, ← (evaluate_shows (h j)).1, hij]
  · conv_rhs => rw [← List.ofFn_get operands]
    rw [List.map_ofFn, List.map_ofFn]
    exact congrArg List.ofFn (funext fun i => (evaluate_shows (h i)).2.1)

end Results

variable [DecidableEq τ]

/-- A short-circuiting operator and its eager counterpart over the same
operands.  Where no callback fails, both answer, and the result of the one is
that of the other cut short.  The operator applied to the results of all
operands leaves out the same ones afterwards. -/
theorem lazy_refines_eager {op : Operator} (hop : op.shortCircuits)
    {operands : List (Specification τ ν M)} (hne : operands ≠ [])
    (hbuilt : ∀ s ∈ operands, s.Built) {eagerPlace lazyPlace : Place}
    (hplaces : Comparable operands eagerPlace lazyPlace) {position : Place}
    (hcalls : ∀ i : Fin operands.length, ∀ call ∈
      (operands.get i).calls position (eagerPlace.child i) m,
      call.failure = none)
    (made made' place : Place) (style style' : Notation) :
    ∃ short whole truncated,
      ((compose made op operands style).evaluate lazyPlace m).outcome =
        .ok short ∧
      ((compose made' op.eager operands style').evaluate eagerPlace
        m).outcome = .ok whole ∧
      whole.operands.map Result.operand = operands.map operand ∧
      Result.fromOperator place op whole.operands
        (Result.statementOf op whole.operands style) style = .ok truncated ∧
      short.CutShort op whole ∧
      short.satisfied = truncated.satisfied ∧
      short.label.statement = truncated.label.statement ∧
      short.operands.map Result.satisfied =
        truncated.operands.map Result.satisfied ∧
      short.causePositions = truncated.causePositions := by
  obtain ⟨haccepts, haccepts'⟩ :=
    Operator.accepts_of_shortCircuits hop (List.length_pos_iff.2 hne)
  obtain ⟨results, hresults⟩ := exists_results hbuilt hcalls
  have hagain (i : Fin operands.length) :=
    hplaces.exists_eq_ok (operands.get_mem i) (hresults i)
  choose results' hresults' hsatisfied using hagain
  obtain ⟨hnodup, hshown⟩ := results_show hresults
  have hnodup' := (results_show hresults').1
  have houtcomes : (List.ofFn results).map Result.satisfied =
      (List.ofFn results').map Result.satisfied := by
    rw [List.map_ofFn, List.map_ofFn]
    exact congrArg List.ofFn (funext fun i => (hsatisfied i).symm)
  have hkept : (Result.applied eagerPlace op.eager (List.ofFn results)
      (statementOf op.eager operands style') style').operands =
        List.ofFn results := Result.operands_applied op.settledBy_eager ..
  refine ⟨_, _, Result.applied place op (List.ofFn results)
      (Result.statementOf op (List.ofFn results) style) style,
    evaluate_composite_of_ok hresults' haccepts,
    evaluate_composite_of_ok hresults haccepts', ?_, ?_,
    Result.applied_cutShort hnodup' hnodup houtcomes .., ?_, ?_, ?_⟩
  · rw [hkept, hshown]
  · rw [hkept]
    exact Result.fromOperator_eq_ok_iff.2 ⟨by simpa using haccepts, rfl⟩
  · rw [Result.applied_satisfied, Result.applied_satisfied, houtcomes]
  · rw [Result.applied_label, Result.applied_label, Result.statementOf, hshown]
    rfl
  · exact Result.applied_agrees hnodup' hnodup houtcomes.symm ..

/-- A number is asked to be positive, small and even. -/
def asked : List (Specification String Unit Nat) :=
  [.atomic ⟨.root 0, "positive", {}⟩ (fun n => pure (0 < n)) none,
    .atomic ⟨.root 1, "small", {}⟩ (fun n => pure (n < 10)) none,
    .atomic ⟨.root 2, "even", {}⟩ (fun n => pure (n % 2 == 0)) none]

/-- A number that is not small is not asked whether it is even. -/
theorem lazy_refines_eager_asked :
    asked ≠ [] ∧ (∀ s ∈ asked, s.Built) ∧
      Comparable asked (.root 5) (.root 6) ∧
      ∃ short whole truncated : Result String,
        ((compose (.root 3) .andAlso asked {}).evaluate (.root 6)
          25).outcome = .ok short ∧
        ((compose (.root 4) .and asked {}).evaluate (.root 5) 25).outcome =
          .ok whole ∧
        Result.fromOperator (.root 7) .andAlso whole.operands
          (Result.statementOf .andAlso whole.operands {}) {} =
            .ok truncated ∧
        short.CutShort .andAlso whole ∧ whole.causePositions = [1, 2] ∧
        short.causePositions = [1] ∧ truncated.causePositions = [1] := by
  have hbuilt : ∀ s ∈ asked, s.Built := by
    simp only [asked, List.forall_mem_cons]
    exact ⟨.atomic (by decide) _, .atomic (by decide) _,
      .atomic (by decide) _, by simp⟩
  have hpure : ∀ s ∈ asked, s.Pure ∅ := by
    simp only [asked, List.forall_mem_cons]
    exact ⟨by rintro _ ⟨⟩, by rintro _ ⟨⟩, by rintro _ ⟨⟩, by simp⟩
  have hplaces : Comparable asked (.root 5) (.root 6) :=
    Or.inr ⟨by decide, ∅, hpure, fun _ h => nomatch h⟩
  have hcalls : ∀ i : Fin asked.length, ∀ call ∈
      (asked.get i).calls (.root 7) ((Place.root 5).child i) 25,
      call.failure = none := by decide
  have hop : Operator.shortCircuits .andAlso := rfl
  obtain ⟨short, whole, truncated, hshort, hwhole, -, htruncated, hcut, -, -,
    -, hagree⟩ := lazy_refines_eager hop (List.cons_ne_nil _ _) hbuilt hplaces
      hcalls (.root 3) (.root 4) (.root 7) {} {}
  have hall : whole.causePositions = [1, 2] := by
    obtain rfl := Except.ok.inj hwhole
    decide
  have hone : short.causePositions = [1] := by
    obtain rfl := Except.ok.inj hshort
    decide
  exact ⟨List.cons_ne_nil _ _, hbuilt, hplaces, short, whole, truncated,
    hshort, hwhole, htruncated, hcut, hall, hone, hagree ▸ hone⟩

end Specification

end Rationale
