import Rationale.Proofs.Quantified

/-!
# What a quantifier tells its factories

A quantifier hands a snapshot of its items to the factory that it asks for
values: the items, their results, and the positions of those that explain the
outcome.  The three lists are read side by side, so they have to fit together,
and they have to fit the result that comes out in the end.  There are three
groups.

* Positions.  `positions_modelsWith` says that the items of an outcome stand
  at the positions of this outcome, one at each.
* Consistent snapshots.  `Snapshot.Consistent` says that the lists of a
  snapshot fit together, and `consistent` that they do if there is a result
  for each item and every cause is the position of a result.
* Handing over.  `Specification.HandsOver` says that a quantifier hands a
  snapshot to the factory of its branch, and that its result rests on what the
  snapshot shows.  A factory that takes a note of its snapshot tells which one
  it is.
-/

namespace Rationale

variable {τ ν I : Type}

/-! ## Positions -/

/-- The members with an outcome are those at its positions, in order. -/
theorem map_getElem?_positionsOf {α : Type} (f : α → Bool) (wanted : Bool)
    (xs : List α) :
    (positionsOf wanted (xs.map f)).map (fun i => xs[i]?) =
      (xs.filter fun x => f x = wanted).map some := by
  have hlt : ∀ i ∈ positionsOf wanted (xs.map f), i < xs.length := by
    intro i hi
    simpa using lt_length_of_mem_positions (Or.inr ⟨wanted, hi⟩)
  rw [map_getElem?_eq hlt, pick_positionsOf]

/-- An outcome has as many positions as there are members with it. -/
theorem length_positionsOf {α : Type} (f : α → Bool) (wanted : Bool)
    (xs : List α) :
    (positionsOf wanted (xs.map f)).length =
      xs.countP fun x => f x = wanted := by
  have hlength := congrArg List.length (map_getElem?_positionsOf f wanted xs)
  rw [List.length_map, List.length_map] at hlength
  rw [hlength, List.countP_eq_length_filter]

namespace Snapshot

/-- The outcomes of the items, in order. -/
def outcomes (s : Snapshot τ I) : List Bool := s.results.map Result.satisfied

variable {s : Snapshot τ I}

/-- The items of an outcome are those at its positions, in order. -/
theorem positions_modelsWith (h : s.results.length = s.models.length)
    (wanted : Bool) :
    (positionsOf wanted s.outcomes).map (fun i => s.models[i]?) =
      (s.modelsWith wanted).map some := by
  let entries := s.models.zip s.results
  have hmodels : entries.map Prod.fst = s.models :=
    List.map_fst_zip (Nat.le_of_eq h.symm)
  have houtcomes : entries.map (fun entry => entry.2.satisfied) =
      s.outcomes := by
    have hresults : entries.map Prod.snd = s.results :=
      List.map_snd_zip (Nat.le_of_eq h)
    rw [outcomes, ← hresults, List.map_map]
    rfl
  -- What is picked of the pairs is picked of the items in them.
  have hentries :=
    map_getElem?_positionsOf (fun entry => entry.2.satisfied) wanted entries
  have hfirsts := congrArg (List.map (Option.map Prod.fst)) hentries
  rw [← houtcomes, modelsWith]
  conv_lhs => rw [← hmodels]
  simpa [Function.comp_def] using hfirsts

/-- There are as many satisfied items as positions of satisfied items. -/
theorem trueCount_eq (s : Snapshot τ I) :
    s.trueCount = (positionsOf true s.outcomes).length := by
  rw [outcomes, length_positionsOf, trueCount]
  simp

theorem length_positionsOf_outcomes (h : s.results.length = s.models.length) :
    (positionsOf true s.outcomes).length +
      (positionsOf false s.outcomes).length = s.count := by
  rw [length_positionsOf_add, outcomes, List.length_map, h, count]

/-! ## Consistent snapshots -/

/-- The items are split into the satisfied ones, which stand at some
positions, and the others, which stand at the other positions. -/
structure SplitsAt (s : Snapshot τ I) (trues falses : List Nat) : Prop where
  ascending : trues.Pairwise (· < ·) ∧ falses.Pairwise (· < ·)
  apart : ∀ i ∈ trues, i ∉ falses
  covers : ∀ i, i ∈ trues ∨ i ∈ falses ↔ i < s.count
  outcomes : ∀ i, (i ∈ trues ↔ s.outcomes[i]? = some true) ∧
    (i ∈ falses ↔ s.outcomes[i]? = some false)
  trueModels : trues.map (fun i => s.models[i]?) = s.trueModels.map some
  falseModels : falses.map (fun i => s.models[i]?) = s.falseModels.map some

theorem splitsAt (h : s.results.length = s.models.length) :
    s.SplitsAt (positionsOf true s.outcomes)
      (positionsOf false s.outcomes) where
  ascending := ⟨pairwise_positionsOf .., pairwise_positionsOf ..⟩
  apart i htrue hfalse := by
    rw [mem_positionsOf] at htrue hfalse
    cases htrue.symm.trans hfalse
  covers i := by
    rw [mem_positionsOf, mem_positionsOf, count, ← h,
      ← List.length_map (f := Result.satisfied)]
    constructor
    · rintro (hi | hi)
      · exact (List.getElem?_eq_some_iff.1 hi).1
      · exact (List.getElem?_eq_some_iff.1 hi).1
    · intro hi
      rw [outcomes, List.getElem?_eq_getElem hi, Option.some.injEq,
        Option.some.injEq]
      exact Bool.eq_false_or_eq_true _
  outcomes _ := ⟨mem_positionsOf, mem_positionsOf⟩
  trueModels := positions_modelsWith h true
  falseModels := positions_modelsWith h false

/-- The lists of a snapshot fit together, and its numbers and flags are those
of the results. -/
structure Consistent (s : Snapshot τ I) : Prop where
  parallel : s.results.length = s.models.length
  splits : s.SplitsAt (positionsOf true s.outcomes)
    (positionsOf false s.outcomes)
  trueCount : s.trueModels.length = s.trueCount ∧ s.trueCount ≤ s.count
  falseCount : s.falseModels.length = s.falseCount ∧
    s.trueCount + s.falseCount = s.count
  allSatisfied :
    s.allSatisfied = (Quantifier.all.select s.outcomes).satisfied
  noneSatisfied :
    s.noneSatisfied = (Quantifier.none.select s.outcomes).satisfied
  causes : ∀ i ∈ s.causes, i < s.count
  causalModels :
    s.causes.map (fun i => s.models[i]?) = s.causalModels.map some
  causalResults :
    s.causes.map (fun i => s.results[i]?) = s.causalResults.map some

theorem consistent (h : s.results.length = s.models.length)
    (hcauses : ∀ i ∈ s.causes, i < s.results.length) : s.Consistent := by
  have hsplits := splitsAt h
  have htrue := trueCount_eq s
  have hadd := length_positionsOf_outcomes h
  have htrues := congrArg List.length hsplits.trueModels
  have hfalses := congrArg List.length hsplits.falseModels
  rw [List.length_map, List.length_map] at htrues hfalses
  have hempty {n : Nat} {positions : List Nat} (hn : n = positions.length) :
      decide (n = 0) = positions.isEmpty := by
    subst hn
    cases positions <;> rfl
  constructor
  · exact h
  · exact hsplits
  · omega
  · rw [falseCount]
    omega
  · rw [allSatisfied, Quantifier.select, ← hempty rfl]
    exact decide_eq_decide.2 (by omega)
  · rw [noneSatisfied, Quantifier.select, ← hempty htrue]
  · rw [count, ← h]
    exact hcauses
  · exact map_getElem?_eq (h ▸ hcauses)
  · exact map_getElem?_eq hcauses

end Snapshot

/-! ## Handing over -/

/-- Takes a note of the snapshot before it makes the values. -/
def SnapshotFactory.noting (note : Snapshot τ I → ν)
    (factory : SnapshotFactory τ ν I) : SnapshotFactory τ ν I :=
  .snapshotMany fun s =>
    ⟨note s :: (factory.resolve s).notes, (factory.resolve s).outcome⟩

/-- The snapshot of a quantifier over items with results. -/
def Quantifier.snapshot (quantifier : Quantifier) (models : List I)
    (results : List (Result τ)) : Snapshot τ I :=
  ⟨models, results, (quantifier.select (results.map Result.satisfied)).causes⟩

/-- The factory of the branch that a quantifier takes. -/
def Quantifier.factoryFor (quantifier : Quantifier)
    (pair : Branches (SnapshotFactory τ ν I)) (s : Snapshot τ I) :
    SnapshotFactory τ ν I :=
  pair.taken (quantifier.select s.outcomes).satisfied

/-- The snapshot of a quantifier is consistent. -/
theorem Quantifier.consistent_snapshot (quantifier : Quantifier)
    {models : List I} {results : List (Result τ)}
    (h : results.length = models.length) :
    (quantifier.snapshot models results).Consistent :=
  Snapshot.consistent h Specification.lt_of_mem_select

namespace Specification

variable [Metadata τ]

/-- Runs the items of a quantifier, in order. -/
def runItems (item : Specification τ ν I) (place : Place)
    (models : List I) : Traced ν Error (List (Result τ)) :=
  Traced.runAll (fun entry => item.evaluate (place.child entry.2) entry.1)
    models.zipIdx

/-- A quantifier hands a snapshot to the factory of its branch, after it has
run its items, and to no other factory.  The results in the snapshot are those
of the items, and the result of the quantifier rests on them, in order, and is
explained by those that the snapshot shows as causes. -/
structure HandsOver (heading : Heading) (quantifier : Quantifier)
    (item : Specification τ ν I) (pair : Branches (SnapshotFactory τ ν I))
    (place : Place) (models : List I) (s : Snapshot τ I) : Prop where
  handed : ∀ note : Snapshot τ I → ν,
    (quantified heading quantifier item
        (some (pair.mapRole fun _ => .noting note))).evaluate place models =
      ⟨(runItems item place models).notes ++ note s ::
          ((quantifier.factoryFor pair s).resolve s).notes,
        ((quantified heading quantifier item (some pair)).evaluate place
          models).outcome⟩
  items : s.models = models ∧ ∀ (i : Nat) m r, s.models[i]? = some m →
    s.results[i]? = some r → (item.evaluate (place.child i) m).outcome = .ok r
  causal : ∀ (n : Nat) (m : I) (r : Result τ), s.causalModels[n]? = some m →
    s.causalResults[n]? = some r → ∃ i, s.causes[n]? = some i ∧
      (item.evaluate (place.child i) m).outcome = .ok r
  returns : (∃ r, ((quantified heading quantifier item (some pair)).evaluate
      place models).outcome = .ok r) ↔
    ∃ values, ((quantifier.factoryFor pair s).resolve s).outcome = .ok values
  rests : ∀ r, ((quantified heading quantifier item (some pair)).evaluate
      place models).outcome = .ok r →
    r.satisfied = (quantifier.select s.outcomes).satisfied ∧
      r.operands = s.results ∧ r.causes = s.causalResults

variable {heading : Heading} {quantifier : Quantifier}
  {item : Specification τ ν I} {pair : Branches (SnapshotFactory τ ν I)}
  {place : Place} {models : List I} {results : List (Result τ)}

/-- The results of items stand in the order of the items. -/
theorem outcome_of_runItems
    (hrun : (runItems item place models).outcome = .ok results) (i : Nat) :
    models[i]?.map (fun m => (item.evaluate (place.child i) m).outcome) =
      results[i]?.map .ok := by
  have hmap := (Traced.runAll_eq_ok_iff ..).1 hrun
  have hi := congrArg (fun outcomes => outcomes[i]?) hmap
  simpa [List.getElem?_zipIdx, Function.comp_def] using hi

theorem length_of_runItems
    (hrun : (runItems item place models).outcome = .ok results) :
    results.length = models.length := by
  have hmap := (Traced.runAll_eq_ok_iff ..).1 hrun
  simpa using (congrArg List.length hmap).symm

/-- What a quantifier does after its items have answered. -/
theorem evaluate_of_runItems
    (hrun : (runItems item place models).outcome = .ok results)
    (pair : Branches (SnapshotFactory τ ν I)) {s : Snapshot τ I}
    (hs : quantifier.snapshot models results = s) :
    (quantified heading quantifier item (some pair)).evaluate place models =
      ⟨(runItems item place models).notes ++
          ((quantifier.factoryFor pair s).resolve s).notes,
        (((quantifier.factoryFor pair s).resolve s).raisedBy heading.statement
          (Role.ofOutcome (quantifier.select s.outcomes).satisfied)).outcome.map
            fun values => judged place quantifier results <|
              .ofValues heading.statement values heading.style
                (quantifier.select s.outcomes).satisfied⟩ := by
  subst hs
  rw [evaluate_quantified]
  refine (Traced.bind_of_ok hrun _).trans ?_
  simp only [declareSnapshot, bind_assoc, pure_bind]
  rw [Traced.bind_pure_eq]
  rfl

/-- A quantifier whose items answer hands a consistent snapshot to the factory
of its branch, and its result rests on what the snapshot shows. -/
theorem handsOver_of_runItems
    (hrun : (runItems item place models).outcome = .ok results) :
    (quantifier.snapshot models results).Consistent ∧
      HandsOver heading quantifier item pair place models
        (quantifier.snapshot models results) := by
  have hconsistent := quantifier.consistent_snapshot (length_of_runItems hrun)
  have hitems {i : Nat} {m : I} {r : Result τ} (hm : models[i]? = some m)
      (hr : results[i]? = some r) :
      (item.evaluate (place.child i) m).outcome = .ok r := by
    simpa [hm, hr] using outcome_of_runItems hrun i
  refine ⟨hconsistent, ?_⟩
  constructor
  case handed =>
    intro note
    rw [evaluate_of_runItems hrun pair rfl, evaluate_of_runItems hrun _ rfl,
      Quantifier.factoryFor, Branches.taken_mapRole]
    rfl
  case items => exact ⟨rfl, fun i m r => hitems⟩
  case causal =>
    intro n m r hm hr
    have hmodel := congrArg (fun list => list[n]?) hconsistent.causalModels
    have hresult := congrArg (fun list => list[n]?) hconsistent.causalResults
    simp only [List.getElem?_map, hm, hr, Option.map_some,
      Option.map_eq_some_iff] at hmodel hresult
    obtain ⟨i, hi, hmodel⟩ := hmodel
    obtain ⟨j, hj, hresult⟩ := hresult
    obtain rfl : i = j := Option.some.inj (hi.symm.trans hj)
    exact ⟨i, hi, hitems hmodel hresult⟩
  case returns =>
    rw [evaluate_of_runItems hrun pair rfl, Traced.raisedBy, Traced.mapError]
    cases ((quantifier.factoryFor pair
      (quantifier.snapshot models results)).resolve _).outcome with
    | ok values => simp [Except.mapError, Except.map]
    | error raised => simp [Except.mapError, Except.map]
  case rests =>
    intro r hr
    obtain ⟨results', hresults', declaration, -, rfl⟩ :=
      evaluate_quantified_eq_ok_iff.1 hr
    obtain rfl := Except.ok.inj (hrun.symm.trans hresults')
    exact ⟨rfl, rfl, rfl⟩

/-- Whether a number is even. -/
def evenItem : Specification String Unit Nat :=
  .atomic ⟨.root 0, "even", {}⟩ (fun n => pure (n % 2 == 0)) none

/-- What is said of the even ones among some numbers. -/
def evenOnes : Branches (SnapshotFactory String Unit Nat) where
  whenTrue := .snapshotMany fun s => pure (s.trueModels.map toString)
  whenFalse := .constant "no even"

/-- One number is odd, and the two others explain that some are even. -/
theorem handsOver_of_runItems_even :
    ∃ results, (runItems evenItem (.root 2) [1, 2, 4]).outcome = .ok results ∧
      (Quantifier.any.snapshot [1, 2, 4] results).Consistent ∧
      HandsOver ⟨.root 1, "some even", {}⟩ .any evenItem evenOnes (.root 2)
        [1, 2, 4] (Quantifier.any.snapshot [1, 2, 4] results) ∧
      (Quantifier.any.snapshot [1, 2, 4] results).falseModels = [1] ∧
      (Quantifier.any.snapshot [1, 2, 4] results).causalModels = [2, 4] := by
  have hhands {results : List (Result String)}
      (hrun : (runItems evenItem (.root 2) [1, 2, 4]).outcome = .ok results) :
      (Quantifier.any.snapshot [1, 2, 4] results).Consistent ∧
        HandsOver ⟨.root 1, "some even", {}⟩ .any evenItem evenOnes (.root 2)
          [1, 2, 4] (Quantifier.any.snapshot [1, 2, 4] results) :=
    handsOver_of_runItems hrun
  exact ⟨_, rfl, (hhands rfl).1, (hhands rfl).2, rfl, rfl⟩

end Specification

end Rationale
