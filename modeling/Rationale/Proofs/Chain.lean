import Rationale.Description
import Rationale.Proofs.Evaluation
import Rationale.Proofs.Renaming
import Rationale.Proofs.View

/-!
# Chains of results

A chain of a short-circuit operator may be one result or a result over
shorter chains, and what it says is the same.  There are three groups.

* Saying the same.  `Result.SaysSame` compares what two results say in
  words.  Moved results say the same, and so do results of one operator
  whose causes bring the same.
* Settling.  An operator that can be settled is explained by the operand
  that settles it, or by all operands.
* Chains.  `Result.chain` lists the results that a result stands for in a
  chain, and `Chained` says that it can be replaced by them.
  `saysSame_of_chained` is the replacement.
-/

namespace Rationale.Result

variable {τ : Type}

/-! ## Saying the same -/

section SaysSame

variable [DecidableEq τ]

/-- Whether two results say the same in words.  How many causes they have
may differ. -/
structure SaysSame (r r' : Result τ) : Prop where
  satisfied : r.satisfied = r'.satisfied
  statement : r.label.statement = r'.label.statement
  style : r.label.style = r'.label.style
  reason : ∀ style, r.reason style = r'.reason style
  justification : ∀ style, r.justification style = r'.justification style
  assertions : r.assertions = r'.assertions
  metadata : r.metadata = r'.metadata

theorem SaysSame.refl (r : Result τ) : r.SaysSame r :=
  ⟨rfl, rfl, rfl, fun _ => rfl, fun _ => rfl, rfl, rfl⟩

theorem SaysSame.trans {r r' r'' : Result τ} (h : r.SaysSame r')
    (h' : r'.SaysSame r'') : r.SaysSame r'' where
  satisfied := h.satisfied.trans h'.satisfied
  statement := h.statement.trans h'.statement
  style := h.style.trans h'.style
  reason style := (h.reason style).trans (h'.reason style)
  justification style := (h.justification style).trans (h'.justification style)
  assertions := h.assertions.trans h'.assertions
  metadata := h.metadata.trans h'.metadata

/-- Whether the values of a tier belong to the declaration of a node. -/
def Declared {V : Type} (own : Finding τ → List V) : Prop :=
  ∀ finding : Finding τ, finding.values = [] → finding.assertions = [] →
    own finding = []

/-- Results without declarations say the same if their labels do, and their
views, and the tiers of their causes. -/
theorem saysSame_of_causes {r r' : Result τ}
    (hvalues : r.label.values = []) (hassertions : r.label.assertions = [])
    (hlabel : r.label = r'.label) (hview : view r = view r')
    (htiers : ∀ {V : Type} (own : Finding τ → List V), Declared own →
      Node.subValues own r = Node.subValues own r') : SaysSame r r' := by
  have hquiet {V : Type} {own : Finding τ → List V} (hown : Declared own) :
      ¬Node.declares own r := by
    rw [Node.declares, hown _ hvalues hassertions]
    simp
  have hquiet' {V : Type} {own : Finding τ → List V} (hown : Declared own) :
      ¬Node.declares own r' := by
    rw [Node.declares, ← hlabel]
    exact hquiet hown
  have hsame {V : Type} {own : Finding τ → List V} (hown : Declared own) :
      Node.values own r = Node.values own r' := by
    rw [Node.values_eq_subValues own (hquiet hown),
      Node.values_eq_subValues own (hquiet' hown), htiers own hown]
  have hvaluesSame : r.metadata = r'.metadata := hsame fun _ h _ => h
  have hassertionsSame : Node.values (fun f : Finding τ => f.assertions) r =
      Node.values (fun f : Finding τ => f.assertions) r' :=
    hsame fun _ _ h => h
  refine ⟨?_, ?_, ?_, fun style => ?_, fun style => ?_, ?_, hvaluesSame⟩
  · rw [satisfied, satisfied, hlabel]
  · rw [hlabel]
  · rw [hlabel]
  · rw [reason, reason, hview]
  · rw [justification, justification, outline, outline, hview]
  · rw [assertions, assertions, hassertionsSame]

/-- Only the label and the causes of a result say anything. -/
theorem view_congr {r r' : Result τ} (hlabel : r.label = r'.label)
    (hcauses : r.causes = r'.causes) : view r = view r' := by
  obtain ⟨place, finding, operands, causes⟩ := r
  obtain ⟨place', finding', operands', causes'⟩ := r'
  obtain rfl : finding = finding' := hlabel
  obtain rfl : causes = causes' := hcauses
  rw [view, view]

/-- A result over moved causes says the same. -/
theorem saysSame_of_rename (ρ : Equiv.Perm Place) {r r' : Result τ}
    (hvalues : r.label.values = []) (hassertions : r.label.assertions = [])
    (hlabel : r.label = r'.label)
    (hcauses : r.causes = r'.causes.map (Node.rename ρ)) :
    SaysSame r r' := by
  refine saysSame_of_causes hvalues hassertions hlabel ?_ fun own _ => ?_
  · have hview : view r = view (Node.rename ρ r') :=
      view_congr (by rw [hlabel, Node.rename_label])
        (by rw [hcauses, Node.rename_causes])
    rw [hview, view_rename]
  · rw [Node.subValues, Node.subValues, hcauses,
      Node.ownValues_firstDeclaring_rename]

/-- An operator over moved results says the same. -/
theorem saysSame_applied_rename (ρ : Equiv.Perm Place) (place place' : Place)
    (op : Operator) (rs : List (Result τ)) (statement : String)
    (style : Notation) :
    SaysSame (applied place op (rs.map (Node.rename ρ)) statement style)
      (applied place' op rs statement style) := by
  have hmoved := applied_rename ρ (ρ.symm place) op rs statement style
  rw [ρ.apply_symm_apply] at hmoved
  refine saysSame_of_rename ρ (by rw [applied_label]; rfl)
    (by rw [applied_label]; rfl) ?_ ?_
  · rw [hmoved, Node.rename_label, applied_label, applied_label]
  · rw [hmoved, Node.rename_causes, applied_causes, applied_causes]

end SaysSame

/-! ## Settling -/

/-- Whether the result settles the operator. -/
def settles (op : Operator) (r : Result τ) : Bool := op.settles r.satisfied

/-- The operands that explain an operator that can be settled. -/
theorem causesAmong_eq {op : Operator} (hop : op.shortCircuits)
    (rs : List (Result τ)) :
    causesAmong op rs =
      if rs.any (settles op) then rs.filter (settles op) else rs := by
  cases op with
  | and | or | xor | not => cases hop
  | andAlso =>
    have hsettles : settles (τ := τ) .andAlso = fun r => !r.satisfied := by
      funext r
      rw [settles, Operator.settles_andAlso]
    have hholds : (rs.map satisfied).all id = !rs.any (settles .andAlso) := by
      rw [hsettles, List.not_any_eq_all_not, List.all_map]
      exact congrArg rs.all (funext fun r => (Bool.not_not _).symm)
    rw [causesAmong, Operator.causes_of_conjunction rfl, hholds]
    cases rs.any (settles .andAlso) with
    | true =>
      refine (pick_positionsOf ..).trans (List.filter_congr fun r _ => ?_)
      simp [hsettles]
    | false => exact pick_allPositions ..
  | orElse =>
    have hsettles : settles (τ := τ) .orElse = satisfied := by
      funext r
      rw [settles, Operator.settles_orElse, id]
    have hholds : (rs.map satisfied).any id = rs.any (settles .orElse) := by
      rw [hsettles, List.any_map]
      rfl
    rw [causesAmong, Operator.causes_of_disjunction rfl, hholds]
    cases rs.any (settles .orElse) with
    | true =>
      refine (pick_positionsOf ..).trans (List.filter_congr fun r _ => ?_)
      simp [hsettles]
    | false => exact pick_allPositions ..

/-- An operand that settles is reached, unless another one is before it. -/
theorem any_reached (op : Operator) (rs : List (Result τ)) :
    (reached op rs).any (settles op) = rs.any (settles op) := by
  have hany (rs : List (Result τ)) :
      rs.any (settles op) = op.settles (op.holds (rs.map satisfied)) := by
    rw [Operator.settles_holds, List.any_map]
    rfl
  rw [hany, hany, reached_map_satisfied, op.holds_upTo]

/-- Operands that differ are different causes. -/
theorem nodup_causesAmong {op : Operator} (hop : op.shortCircuits)
    {rs : List (Result τ)} (h : rs.Nodup) :
    (causesAmong op (reached op rs)).Nodup := by
  have hreached := h.sublist (reached_isPrefix op rs).sublist
  rw [causesAmong_eq hop]
  split
  · exact hreached.filter _
  · exact hreached

/-! ## Chains -/

/-- The results that a result stands for in a chain of `op`: its operands,
if it is such a chain, or itself. -/
def chain (op : Operator) (r : Result τ) : List (Result τ) :=
  if r.label.kind = .applied op ∧ op.isAssociative then r.operands else [r]

/-- An operator that can be settled makes chains, and so do its views. -/
theorem chains_of_shortCircuits {op : Operator} (h : op.shortCircuits) :
    op.isAssociative ∧ op.collapsesWith op := by
  cases op with
  | and | or | xor | not => cases h
  | andAlso | orElse => exact ⟨rfl, rfl⟩

theorem chainOperands_of_shortCircuits {op : Operator}
    (h : op.shortCircuits) (r : Result τ) : chainOperands op r = [r] := by
  rw [chainOperands, if_neg]
  simp [h]

theorem chainOperands_eq_chain {op : Operator} (h : ¬op.shortCircuits)
    (r : Result τ) : chainOperands op r = chain op r := by
  rw [chainOperands, chain]
  simp [h]

section Chained

variable [DecidableEq τ]

/-- Whether a result can be replaced by the results that it stands for. -/
structure Chained (op : Operator) (r : Result τ) : Prop where
  /-- Each of them is looked at. -/
  reached : reached op (chain op r) = chain op r
  /-- The result settles the operator if one of them does. -/
  settles : settles op r = (chain op r).any (settles op)
  /-- Those that explain the chain bring what the result brings. -/
  items : items op r = (causesAmong op (chain op r)).flatMap (items op)
  /-- Those that explain the chain lead where the result leads. -/
  frontier : ∀ {V : Type} (own : Finding τ → List V), Declared own →
    Node.frontier .causes (Node.declares own) r =
      (causesAmong op (chain op r)).flatMap
        (Node.frontier .causes (Node.declares own))

/-- A result that is no chain of the operator stands for itself. -/
theorem chained_of_ne {op : Operator} (hop : op.shortCircuits) {r : Result τ}
    (h : r.label.kind ≠ .applied op) : Chained op r := by
  have hchain : chain op r = [r] := by
    rw [chain, if_neg fun hboth => h hboth.1]
  have hself : causesAmong op [r] = [r] := by
    rw [causesAmong_eq hop]
    by_cases hr : settles op r <;> simp [hr]
  refine ⟨?_, ?_, ?_, fun own _ => ?_⟩
  · rw [hchain, Result.reached, upTo, upTo]
    split <;> rfl
  · simp [hchain]
  · rw [hchain, hself, List.flatMap_singleton]
  · rw [hchain, hself, List.flatMap_singleton]

/-- A result of the operator stands for the operands that were looked at. -/
theorem chained_applied {op : Operator} (hop : op.shortCircuits)
    (place : Place) {rs : List (Result τ)} (hnodup : rs.Nodup)
    (statement : String) (style : Notation) :
    Chained op (applied place op rs statement style) := by
  obtain ⟨hassociative, hcollapses⟩ := chains_of_shortCircuits hop
  have hchain : chain op (applied place op rs statement style) =
      Result.reached op rs := by
    rw [chain, applied_eq, if_pos ⟨rfl, hassociative⟩]
    rfl
  have hcauses := applied_causes place op rs statement style
  refine ⟨?_, ?_, ?_, fun own hown => ?_⟩
  · rw [hchain]
    exact upTo_upTo ..
  · rw [hchain, any_reached, Result.settles, applied_satisfied,
      Operator.settles_holds, List.any_map]
    rfl
  · have hdistinct := nodup_causesAmong hop hnodup
    rw [← hcauses] at hdistinct
    rw [hchain, ← hcauses]
    exact items_of_chain hcollapses (by rw [applied_label]) hdistinct
  · have hforward :
        ¬Node.declares own (applied place op rs statement style) := by
      have hnil : own (applied place op rs statement style).label = [] := by
        rw [applied_label]
        exact hown _ rfl rfl
      rw [Node.declares, hnil]
      simp
    rw [Node.frontier_eq, if_neg hforward, hchain, ← hcauses]
    rfl

/-- What explains a chain over chains is what explains the whole chain. -/
theorem causesAmong_chains {op : Operator} (hop : op.shortCircuits)
    {a b : Result τ} (ha : Chained op a) (hb : Chained op b) :
    (causesAmong op (Result.reached op [a, b])).flatMap
        (fun r => causesAmong op (chain op r)) =
      causesAmong op (Result.reached op (chain op a ++ chain op b)) := by
  have happend : Result.reached op (chain op a ++ chain op b) =
      if (chain op a).any (Result.settles op) then chain op a
      else chain op a ++ chain op b := by
    have hreachedA : upTo (Result.settles op) (chain op a) = chain op a :=
      ha.reached
    have hreachedB : upTo (Result.settles op) (chain op b) = chain op b :=
      hb.reached
    refine (upTo_append (Result.settles op) ..).trans ?_
    rw [hreachedA, hreachedB]
  have hpair : Result.reached op [a, b] =
      if Result.settles op a then [a] else [a, b] := by
    show upTo (Result.settles op) [a, b] = _
    rw [upTo, upTo, upTo]
    simp
  rw [happend, hpair, ← ha.settles]
  by_cases hsettlesA : Result.settles op a
  · rw [if_pos hsettlesA, if_pos hsettlesA, causesAmong_eq hop [a]]
    simp [hsettlesA]
  · have hnoneA : (chain op a).any (Result.settles op) = false := by
      rw [← ha.settles]
      simpa using hsettlesA
    have hfilterA : (chain op a).filter (Result.settles op) = [] :=
      List.filter_eq_nil_iff.2 fun r hr => by
        simpa using List.any_eq_false.1 hnoneA r hr
    rw [if_neg hsettlesA, if_neg hsettlesA, causesAmong_eq hop [a, b],
      causesAmong_eq hop (chain op a ++ chain op b), List.any_append, hnoneA,
      ← hb.settles]
    by_cases hsettlesB : Result.settles op b
    · simp [hsettlesA, hsettlesB, hfilterA, causesAmong_eq hop (chain op b),
        ← hb.settles]
    · simp [hsettlesA, hsettlesB, causesAmong_eq hop (chain op b),
        causesAmong_eq hop (chain op a), ← hb.settles, hnoneA]

/-- A result over two chains says the same as the whole chain. -/
theorem saysSame_of_chained {op : Operator} (hop : op.shortCircuits)
    {a b : Result τ} (ha : Chained op a) (hb : Chained op b) (hne : a ≠ b)
    (hnodup : (chain op a ++ chain op b).Nodup) (place place' : Place)
    (statement : String) (style : Notation) :
    SaysSame
      (applied place op (chain op a ++ chain op b) statement style)
      (applied place' op [a, b] statement style) := by
  have hnegation : op ≠ .not := by
    rintro rfl
    cases hop
  have hpair : [a, b].Nodup := by simp [hne]
  have hchained : ∀ r ∈ causesAmong op (Result.reached op [a, b]),
      Chained op r := by
    intro r hr
    rw [← applied_causes place' op [a, b] statement style] at hr
    rcases List.mem_pair.1 (mem_of_mem_causes_applied hr) with rfl | rfl
    · exact ha
    · exact hb
  have hholds : op.holds ((chain op a ++ chain op b).map satisfied) =
      op.holds [a.satisfied, b.satisfied] := by
    apply op.settles_injective hop
    rw [Operator.settles_holds, Operator.settles_holds, List.any_map,
      List.any_append]
    show ((chain op a).any (Result.settles op) ||
      (chain op b).any (Result.settles op)) = _
    rw [← ha.settles, ← hb.settles]
    simp [Result.settles]
  refine saysSame_of_causes (by rw [applied_label]; rfl)
    (by rw [applied_label]; rfl) ?_ ?_ fun own hown => ?_
  · rw [applied_label, applied_label, hholds]
    rfl
  · rw [view_applied hnegation (by rw [applied_label]),
      view_applied hnegation (by rw [applied_label]), applied_causes,
      applied_causes,
      views_flatMap_itemsUnder (nodup_causesAmong hop hnodup),
      views_flatMap_itemsUnder (nodup_causesAmong hop hpair),
      ← causesAmong_chains hop ha hb, List.flatMap_assoc]
    exact congrArg _ (List.flatMap_congr fun r hr =>
      (hchained r hr).items.symm)
  · rw [Node.subValues, Node.subValues, Node.firstDeclaring_eq,
      Node.firstDeclaring_eq, applied_causes, applied_causes,
      ← causesAmong_chains hop ha hb, List.flatMap_assoc,
      List.flatMap_congr fun r hr => ((hchained r hr).frontier own hown).symm]

end Chained

end Rationale.Result
