import Mathlib.Algebra.BigOperators.Group.Finset.Basic
import Rationale.Proofs.Tier

/-!
# What the views of a tier list

A view of a tier could be read off without keeping track of the nodes that
were seen: list a node whenever a path leads to it, drop all turns of a node
but the first one, and read the values off what is left.  This module says
that the six views are just that, on any graph.

`Survey.turns` is the list with all turns, one plain recursion for each
view, and `Survey.nodes_eq` says that the view reads its first turns.  So a
node that several others share is read once, and `Survey.count_view` counts
a value once for each node that declares it, however often it is met.
-/

namespace Rationale.Node.Survey

variable {α V : Type}

/-- The nodes whose values the view shows, once for each path that leads to
them.  Paths along causes or operands end at the first declaring node, or
at a leaf, or take in every node. -/
def turns (own : α → List V) : Survey → Node α → List (Node α)
  | .values, node => frontier .causes (declares own) node
  | .allValues, node => descent .operands (fun _ => false) node
  | .subValues, node => node.causes.flatMap (frontier .causes (declares own))
  | .allSubValues, node =>
    node.operands.flatMap (frontier .operands (declares own))
  | .rootValues, node => frontier .causes (fun n => n.causes.isEmpty) node
  | .allRootValues, node =>
    frontier .operands (fun n => n.operands.isEmpty) node

variable [DecidableEq α]

/-- A view reads the first turns. -/
theorem nodes_eq (own : α → List V) (survey : Survey) (node : Node α) :
    survey.nodes own node = (survey.turns own node).eraseDups := by
  cases survey with
  | values =>
    rw [nodes, firstDeclaring_eq, List.flatMap_singleton]
    rfl
  | allValues => exact reached_eq .operands node
  | subValues => exact firstDeclaring_eq own .causes node.causes
  | allSubValues => exact firstDeclaring_eq own .operands node.operands
  | rootValues => exact leaves_eq .causes node
  | allRootValues => exact leaves_eq .operands node

/-- A value is shown as often as the nodes declare it that have a turn, each
of them once. -/
theorem count_view [DecidableEq V] (own : α → List V) (survey : Survey)
    (node : Node α) (v : V) :
    (survey.view own node).count v =
      ∑ n ∈ (survey.turns own node).toFinset, (own n.label).count v := by
  have hset : (survey.turns own node).eraseDups.toFinset =
      (survey.turns own node).toFinset := by
    ext n
    rw [List.mem_toFinset, List.mem_toFinset, List.mem_eraseDups]
  rw [view_eq, nodes_eq, ownValues, List.count_flatMap, ← hset,
    List.sum_toFinset _ (nodup_eraseDups _)]
  rfl

/-- On every graph a view shows the values of the nodes that the plain
recursion lists, each node at its first turn.  A node has one turn left
however many nodes share it, equal values of different nodes are all shown,
and texts are shown as assertions without their later repeats. -/
theorem view_lists (survey : Survey) (node : Node α) :
    (∀ own : α → List V,
      survey.view own node =
        ownValues own (survey.turns own node).eraseDups ∧
      (∀ n, (survey.turns own node).eraseDups.count n =
        if n ∈ survey.turns own node then 1 else 0) ∧
      ∀ [DecidableEq V] (v : V), (survey.view own node).count v =
        ∑ n ∈ (survey.turns own node).toFinset, (own n.label).count v) ∧
    ∀ texts : α → List String,
      distinct (survey.view texts node) =
        (ownValues texts (survey.turns texts node).eraseDups).eraseDups ∧
      distinct (survey.view texts node) =
        (ownValues texts (survey.turns texts node)).eraseDups := by
  have hview {W : Type} (own : α → List W) :
      survey.view own node =
        ownValues own (survey.turns own node).eraseDups := by
    rw [view_eq, nodes_eq]
  refine ⟨fun own => ⟨hview own, fun n => ?_, fun v => ?_⟩,
    fun texts => ⟨?_, ?_⟩⟩
  · rw [(nodup_eraseDups _).count]
    simp only [List.mem_eraseDups]
  · exact survey.count_view own node v
  · rw [distinct, hview]
  · rw [distinct, hview, ownValues, ownValues, eraseDups_flatMap_eraseDups]

/-- A node over two others that share a third one. -/
def diamond : Node (List String) :=
  let shared := .mk (.root 0) ["shared"] [] []
  let left := .mk (.root 1) [] [shared] [shared]
  let right := .mk (.root 2) [] [shared] [shared]
  .mk (.root 3) [] [left, right] [left, right]

example : (values.turns id diamond).length = 2 ∧
    values.view id diamond = ["shared"] := by decide

end Rationale.Node.Survey
