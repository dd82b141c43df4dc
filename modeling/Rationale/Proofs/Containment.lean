import Mathlib.Data.List.Perm.Subperm
import Rationale.Proofs.Determined
import Rationale.Proofs.Listing
import Rationale.Proofs.Parallel

/-!
# Which view of a tier contains which

The views of a tier walk along causes or along operands and end at different
nodes, and still some of them are part of others.  What makes them so is that
the causes of a node are among its operands.  There are four groups.

* Paths.  A descent that never halts lists what is reached, and a frontier is
  reached, too.
* Grounded graphs.  `Node.Grounded` says that causes are operands, at a node
  and below it.  Then a path along causes is a path along operands, and by
  `frontier_subset` it ends where the other one ends.
* Contributors.  `Survey.contributors` are the nodes that contribute values to
  a view, each of them once, and `Within` says that those of one view are
  among those of another.  `Grounded.containments` says which views are within
  which on a grounded graph.
* Results.  A result that one can come by is grounded, and so are its tiers.
-/

namespace Rationale

namespace Node

variable {α β V : Type}

/-! ## Paths -/

section Paths

variable {edges : Edges} {halt : Node α → Bool} {node n : Node α}

/-- A node that some node one step down reaches is reached. -/
theorem reaches_of_mem_flatMap {list : Node α → List (Node α)}
    (h : n ∈ (node.next edges).flatMap list)
    (hlist : ∀ below ∈ node.next edges, n ∈ list below →
      below.Reaches edges n) : node.Reaches edges n := by
  obtain ⟨below, hbelow, hn⟩ := List.mem_flatMap.1 h
  exact .step hbelow (hlist below hbelow hn)

theorem reaches_of_mem_frontier (h : n ∈ frontier edges halt node) :
    node.Reaches edges n := by
  induction node using induction_below with
  | h node ih =>
    rw [frontier_eq] at h
    split at h
    · rw [List.mem_singleton.1 h]
      exact .refl
    · exact reaches_of_mem_flatMap h (ih edges)

/-- A descent that never halts lists what is reached. -/
theorem mem_descent_iff :
    n ∈ descent edges (fun _ => false) node ↔ node.Reaches edges n := by
  induction node using induction_below with
  | h node ih =>
    rw [descent_eq, if_neg Bool.false_ne_true, reaches_iff, List.mem_cons,
      List.mem_flatMap]
    refine or_congr Iff.rfl (exists_congr fun below => ?_)
    exact and_congr_right fun hbelow => ih edges below hbelow

end Paths

/-- Below a copy are the copies of what is below the original. -/
theorem Copies.exists_of_reaches {φ : Node α → Node β} (hφ : Copies φ)
    {edges : Edges} {node : Node α} {copy : Node β}
    (h : (φ node).Reaches edges copy) :
    ∃ n, node.Reaches edges n ∧ copy = φ n := by
  induction h with
  | refl => exact ⟨node, .refl, rfl⟩
  | tail _ hmem ih =>
    obtain ⟨n, hn, rfl⟩ := ih
    rw [hφ.next] at hmem
    obtain ⟨below, hbelow, rfl⟩ := List.mem_map.1 hmem
    exact ⟨below, .tail hn hbelow, rfl⟩

/-! ## Grounded graphs -/

/-- Whether all causes are operands, at the node and at every node below
it. -/
def Grounded (node : Node α) : Prop :=
  ∀ n, node.Reaches .operands n → n.causes ⊆ n.operands

/-- Whether the node and every node below it have causes if they have
operands. -/
def Supported (node : Node α) : Prop :=
  ∀ n, node.Reaches .operands n → n.operands ≠ [] → n.causes ≠ []

namespace Grounded

variable {node n : Node α}

theorem of_reaches (h : node.Grounded) (hn : node.Reaches .operands n) :
    n.Grounded := by
  intro below hbelow
  exact h below (hn.trans hbelow)

theorem of_mem_causes (h : node.Grounded) (hn : n ∈ node.causes) :
    n.Grounded :=
  h.of_reaches (.single (h node .refl hn))

/-- A path along causes is a path along operands. -/
theorem reaches_operands (h : node.Grounded) (hn : node.Reaches .causes n) :
    node.Reaches .operands n := by
  induction hn with
  | refl => exact .refl
  | tail _ hmem ih => exact .tail ih (h _ ih hmem)

/-- A path along causes ends where a path along operands ends, if both are
told to halt at the same nodes. -/
theorem frontier_subset {halt halt' : Node α → Bool} (h : node.Grounded)
    (hhalt : ∀ n, node.Reaches .causes n → halt n = halt' n) :
    frontier .causes halt node ⊆ frontier .operands halt' node := by
  induction node using induction_below with
  | h node ih =>
    rw [frontier_eq, frontier_eq, hhalt node .refl]
    split
    · exact List.Subset.refl _
    · intro n hn
      obtain ⟨cause, hcause, hn⟩ := List.mem_flatMap.1 hn
      have hbelow : n ∈ frontier .operands halt' cause := by
        refine ih .causes cause hcause (h.of_mem_causes hcause) ?_ hn
        intro m hm
        exact hhalt m (.step hcause hm)
      exact List.mem_flatMap.2 ⟨cause, h node .refl hcause, hbelow⟩

/-- On a supported graph the same nodes are leaves along causes and along
operands. -/
theorem isEmpty_causes_eq (h : node.Grounded) (hsupported : node.Supported)
    (hn : node.Reaches .causes n) : n.causes.isEmpty = n.operands.isEmpty := by
  have hreached := h.reaches_operands hn
  by_cases hoperands : n.operands = []
  · have hsubset := h n hreached
    rw [hoperands, List.subset_nil] at hsubset
    rw [hoperands, hsubset]
  · have hcauses := hsupported n hreached hoperands
    rw [List.isEmpty_eq_false_iff.2 hcauses,
      List.isEmpty_eq_false_iff.2 hoperands]

end Grounded

/-- A copy of a grounded graph is grounded. -/
theorem Copies.grounded {φ : Node α → Node β} (hφ : Copies φ)
    {node : Node α} (h : node.Grounded) : (φ node).Grounded := by
  intro copy hcopy
  obtain ⟨n, hn, rfl⟩ := hφ.exists_of_reaches hcopy
  have hcauses : (φ n).causes = n.causes.map φ := hφ.next .causes n
  have hoperands : (φ n).operands = n.operands.map φ := hφ.next .operands n
  rw [hcauses, hoperands]
  exact List.map_subset φ (h n hn)

/-! ## Contributors -/

/-- Nodes that declare nothing have no values. -/
theorem ownValues_filter (own : α → List V) (nodes : List (Node α)) :
    ownValues own (nodes.filter (declares own)) = ownValues own nodes := by
  rw [ownValues, ownValues]
  induction nodes with
  | nil => rfl
  | cons n rest ih =>
    by_cases hdeclares : declares own n
    · rw [List.filter_cons_of_pos hdeclares, List.flatMap_cons,
        List.flatMap_cons, ih]
    · have hnone : own n.label = [] := by simpa [declares] using hdeclares
      rw [List.filter_cons_of_neg hdeclares, List.flatMap_cons, hnone, ih]
      rfl

namespace Survey

section Contributors

variable [DecidableEq α] (own : α → List V)

/-- The nodes that contribute values to the view, in order. -/
def contributors (survey : Survey) (node : Node α) : List (Node α) :=
  (survey.nodes own node).filter (declares own)

theorem mem_contributors {survey : Survey} {node n : Node α} :
    n ∈ survey.contributors own node ↔
      n ∈ survey.turns own node ∧ declares own n := by
  rw [contributors, nodes_eq, List.mem_filter, List.mem_eraseDups]

theorem nodup_contributors (survey : Survey) (node : Node α) :
    (survey.contributors own node).Nodup := by
  rw [contributors, nodes_eq]
  exact (nodup_eraseDups _).filter _

/-- A view shows what its contributors declare. -/
theorem view_eq_contributors (survey : Survey) (node : Node α) :
    survey.view own node = ownValues own (survey.contributors own node) := by
  rw [view_eq, contributors, ownValues_filter]

end Contributors

/-- The nodes that contribute to one view all contribute to the other, so
that it shows every value at least as often. -/
structure Within [DecidableEq α] (own : α → List V) (inner outer : Survey)
    (node : Node α) : Prop where
  nodes : inner.contributors own node ⊆ outer.contributors own node
  values : (inner.view own node).Subperm (outer.view own node)

/-- It is enough that all turns of one view are turns of the other. -/
theorem Within.of_turns [DecidableEq α] {own : α → List V}
    {inner outer : Survey} {node : Node α}
    (h : inner.turns own node ⊆ outer.turns own node) :
    inner.Within own outer node := by
  have hnodes : inner.contributors own node ⊆ outer.contributors own node := by
    intro n hn
    rw [mem_contributors] at hn ⊢
    exact ⟨h hn.1, hn.2⟩
  refine ⟨hnodes, ?_⟩
  obtain ⟨picked, hperm, hsublist⟩ :=
    (inner.nodup_contributors own node).subperm hnodes
  rw [view_eq_contributors, view_eq_contributors]
  exact ⟨ownValues own picked, hperm.flatMap_right _,
    hsublist.flatMap _⟩

end Survey

/-- Which views of a tier are within which, where every node contributes its
own values to a view, and only once. -/
structure Containments [DecidableEq α] (own : α → List V) (node : Node α) :
    Prop where
  once : ∀ survey : Survey, (survey.contributors own node).Nodup ∧
    survey.view own node = ownValues own (survey.contributors own node)
  all : ∀ survey : Survey, survey.Within own .allValues node
  sub : Survey.subValues.Within own .allSubValues node
  forwarding : ¬declares own node → node.values own = node.subValues own
  root : node.Supported → Survey.rootValues.Within own .allRootValues node

namespace Grounded

variable {own : α → List V} {node : Node α}

/-- A view lists nothing that is not reached along operands. -/
theorem reaches_of_mem_turns (h : node.Grounded) {survey : Survey}
    {n : Node α} (hn : n ∈ survey.turns own node) :
    node.Reaches .operands n := by
  cases survey with
  | values | rootValues =>
    exact h.reaches_operands (reaches_of_mem_frontier hn)
  | allValues => exact mem_descent_iff.1 hn
  | subValues =>
    refine h.reaches_operands (reaches_of_mem_flatMap hn ?_)
    exact fun _ _ => reaches_of_mem_frontier
  | allSubValues =>
    exact reaches_of_mem_flatMap hn fun _ _ => reaches_of_mem_frontier
  | allRootValues => exact reaches_of_mem_frontier hn

/-- On a grounded graph the views along causes are within those along
operands, and all of them are within the view of everything. -/
theorem containments [DecidableEq α] (h : node.Grounded) :
    node.Containments own where
  once survey := ⟨survey.nodup_contributors own node,
    survey.view_eq_contributors own node⟩
  all survey := .of_turns fun n hn =>
    mem_descent_iff.2 (h.reaches_of_mem_turns hn)
  sub := by
    refine .of_turns fun n hn => ?_
    obtain ⟨cause, hcause, hn⟩ := List.mem_flatMap.1 hn
    have hfrontier := (h.of_mem_causes hcause).frontier_subset
      (fun _ _ => rfl) hn
    exact List.mem_flatMap.2 ⟨cause, h node .refl hcause, hfrontier⟩
  forwarding := values_eq_subValues own
  root hsupported :=
    .of_turns (h.frontier_subset fun _ => h.isEmpty_causes_eq hsupported)

end Grounded

/-- A node that has an operand and no cause. -/
def uncaused : Node (List String) :=
  .mk (.root 1) ["uncaused"] [.mk (.root 0) ["operand"] [] []] []

example : uncaused.rootValues id = ["uncaused"] ∧
    uncaused.allRootValues id = ["operand"] := by decide

end Node

/-! ## Results -/

namespace Result

variable {τ : Type}

theorem Made.grounded {r : Result τ} (h : Made r) : r.Grounded := by
  intro n hn
  exact (h.of_reaches hn).shape.causes_subset

/-- In both tiers of a result that one can come by, at every node, the views
along causes are within those along operands, and all of them are within the
view of everything. -/
theorem containments_of_reachable [Metadata τ] [DecidableEq τ] {r : Result τ}
    (h : Reachable r) :
    (∀ n, r.explanation.Reaches .operands n → n.Containments Prod.snd) ∧
      ∀ n, r.metadataTier.Reaches .operands n → n.Containments Prod.snd := by
  have hgrounded {W : Type} (own : Finding τ → List W)
      (n : Node (Finding τ × List W))
      (hn : (r.tier own).Reaches .operands n) : n.Grounded :=
    ((Node.copies_tier own).grounded h.made.grounded).of_reaches hn
  constructor
  · intro n hn
    exact (hgrounded _ n hn).containments
  · intro n hn
    exact (hgrounded _ n hn).containments

/-- The chain says nothing of its own, and every node of it has a cause. -/
theorem containments_of_reachable_chained :
    Reachable chained ∧ chained.explanation.Supported ∧
      Node.Survey.Within Prod.snd .rootValues .allRootValues
        chained.explanation ∧
      ¬Node.declares Prod.snd chained.explanation ∧
      chained.explanation.values Prod.snd =
        chained.explanation.subValues Prod.snd := by
  have hcontainments :=
    (containments_of_reachable reachable_chained).1 _ .refl
  have hsupported : chained.explanation.Supported := by
    intro n hn
    have hall : ∀ n ∈ Node.descent .operands (fun _ => false)
        chained.explanation, n.operands ≠ [] → n.causes ≠ [] := by decide
    exact hall n (Node.mem_descent_iff.2 hn)
  have hforwards : ¬Node.declares Prod.snd chained.explanation := by decide
  exact ⟨reachable_chained, hsupported, hcontainments.root hsupported,
    hforwards, hcontainments.forwarding hforwards⟩

end Result

end Rationale
