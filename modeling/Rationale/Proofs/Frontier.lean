import Rationale.Node.Tier
import Rationale.Proofs.Node
import Rationale.Proofs.Repeats

/-!
# Frontiers

A view of a tier walks down from some nodes, skips what it has seen and
halts where it is told to.  Without the skipping a walk is a plain
recursion, in which a shared node has a turn for each path to it.  There
are three groups.

* Paths.  `Node.descent` lists the turns of all nodes on the paths down
  from a node, and `Node.frontier` those of the nodes to halt at.  By
  `filter_descent`, the frontier is picked from the descent.
* Visits.  `adds_visit` says that a visit adds to the nodes seen what the
  descent lists, each node at its first turn.  Skipping a node that was seen
  is right if all that lies below it was seen, too.  A node on the way is
  seen before that, so the induction needs `Done`: of the nodes seen, those
  are done that are small enough to be met again.
* Views.  `firstDeclaring_eq`, `reached_eq` and `leaves_eq` say which nodes
  the views read, without repeats.
-/

namespace Rationale.Node

variable {α V : Type}

/-! ## Paths -/

section Paths

variable (edges : Edges) (halt : Node α → Bool)

mutual

/-- The first nodes to halt at on every path down from a node. -/
def frontier : Node α → List (Node α)
  | .mk place label operands causes =>
    if halt (.mk place label operands causes) then
      [.mk place label operands causes]
    else
      match edges with
      | .causes => frontierAll causes
      | .operands => frontierAll operands

/-- The first nodes to halt at on every path down from several nodes. -/
def frontierAll : List (Node α) → List (Node α)
  | [] => []
  | node :: nodes => frontier node ++ frontierAll nodes

end

theorem frontierAll_eq (nodes : List (Node α)) :
    frontierAll edges halt nodes = nodes.flatMap (frontier edges halt) := by
  induction nodes with
  | nil => rfl
  | cons node rest ih => rw [frontierAll, ih, List.flatMap_cons]

theorem frontier_eq (node : Node α) :
    frontier edges halt node =
      if halt node then [node]
      else (node.next edges).flatMap (frontier edges halt) := by
  obtain ⟨place, label, operands, causes⟩ := node
  cases edges <;> rw [frontier, frontierAll_eq] <;> rfl

mutual

/-- The nodes on every path down from a node, up to the first one to halt
at. -/
def descent : Node α → List (Node α)
  | .mk place label operands causes =>
    .mk place label operands causes ::
      if halt (.mk place label operands causes) then []
      else
        match edges with
        | .causes => descentAll causes
        | .operands => descentAll operands

/-- The nodes on every path down from several nodes. -/
def descentAll : List (Node α) → List (Node α)
  | [] => []
  | node :: nodes => descent node ++ descentAll nodes

end

theorem descentAll_eq (nodes : List (Node α)) :
    descentAll edges halt nodes = nodes.flatMap (descent edges halt) := by
  induction nodes with
  | nil => rfl
  | cons node rest ih => rw [descentAll, ih, List.flatMap_cons]

theorem descent_eq (node : Node α) :
    descent edges halt node =
      node :: if halt node then []
        else (node.next edges).flatMap (descent edges halt) := by
  obtain ⟨place, label, operands, causes⟩ := node
  cases edges <;> rw [descent, descentAll_eq] <;> rfl

variable {edges halt}

/-- What is below a node on the way is on the way. -/
theorem descent_subset {node n : Node α} (h : n ∈ descent edges halt node) :
    descent edges halt n ⊆ descent edges halt node := by
  induction node using induction_below with
  | h node ih =>
    rw [descent_eq] at h
    rcases List.mem_cons.1 h with rfl | hbelow
    · exact List.Subset.refl _
    · split at hbelow
      · cases hbelow
      · rename_i hpass
        obtain ⟨below, hmem, hn⟩ := List.mem_flatMap.1 hbelow
        intro x hx
        rw [descent_eq, if_neg hpass]
        have hx := ih edges below hmem hn hx
        exact List.mem_cons_of_mem _ (List.mem_flatMap.2 ⟨below, hmem, hx⟩)

/-- The frontier is what a descent has of nodes to halt at.  The descent
may go on to the leaves if these are the nodes to halt at. -/
theorem filter_descent {pick : Node α → Bool}
    (hhalt : ∀ node, halt node → pick node)
    (hpick : ∀ node, pick node → halt node ∨ node.next edges = [])
    (node : Node α) :
    (descent edges halt node).filter pick = frontier edges pick node := by
  induction node using induction_below with
  | h node ih =>
    rw [descent_eq, frontier_eq, List.filter_cons]
    by_cases hnode : pick node
    · have hend : (if halt node then []
          else (node.next edges).flatMap (descent edges halt)) = [] := by
        rcases hpick node hnode with hstop | hleaf
        · rw [if_pos hstop]
        · rw [hleaf, List.flatMap_nil, ite_self]
      rw [hend, if_pos hnode, if_pos hnode, List.filter_nil]
    · have hpass : ¬halt node := fun hstop => hnode (hhalt node hstop)
      rw [if_neg hnode, if_neg hnode, if_neg hpass, List.filter_flatMap]
      exact List.flatMap_congr fun below hbelow => ih edges below hbelow

end Paths

/-! ## Visits -/

section Visits

variable {edges : Edges} {halt : Node α → Bool}
  {seen wanted wanted' mid out : List (Node α)} {size : Nat}

/-- Of the nodes seen, those up to some size are done.  None was seen
twice. -/
structure Done (edges : Edges) (halt : Node α → Bool) (size : Nat)
    (seen : List (Node α)) : Prop where
  nodup : seen.Nodup
  below : ∀ node ∈ seen, sizeOf node ≤ size → descent edges halt node ⊆ seen

theorem Done.mono {size' : Nat} (h : Done edges halt size seen)
    (hle : size' ≤ size) : Done edges halt size' seen :=
  ⟨h.nodup, fun node hnode hsize =>
    h.below node hnode (Nat.le_trans hsize hle)⟩

/-- A node that is too large to be met again does not matter. -/
theorem Done.cons (h : Done edges halt size seen) {node : Node α}
    (hnew : node ∉ seen) (hlarge : size < sizeOf node) :
    Done edges halt size (node :: seen) := by
  refine ⟨List.nodup_cons.2 ⟨hnew, h.nodup⟩, fun x hx hsize => ?_⟩
  rcases List.mem_cons.1 hx with rfl | hx
  · omega
  · exact List.Subset.trans (h.below x hx hsize) (List.subset_cons_self ..)

variable [DecidableEq α]

theorem visit_eq (node : Node α) (seen : List (Node α)) :
    visit edges halt node seen =
      if node ∈ seen then seen
      else if halt node then node :: seen
      else visitAll edges halt (node.next edges) (node :: seen) := by
  obtain ⟨place, label, operands, causes⟩ := node
  cases edges <;> rw [visit] <;> rfl

/-- What a visit makes of the nodes seen.  The wanted ones come behind them,
each at its first turn. -/
def Adds (seen wanted out : List (Node α)) : Prop :=
  out.reverse = (seen.reverse ++ wanted).eraseDups

theorem Adds.mem_iff (h : Adds seen wanted out) {node : Node α} :
    node ∈ out ↔ node ∈ seen ∨ node ∈ wanted := by
  rw [← List.mem_reverse, h, List.mem_eraseDups, List.mem_append,
    List.mem_reverse]

theorem Adds.nodup (h : Adds seen wanted out) : out.Nodup := by
  rw [← List.nodup_reverse, h]
  exact nodup_eraseDups _

theorem adds_self (hseen : seen.Nodup) (h : wanted ⊆ seen) :
    Adds seen wanted seen := by
  have hnone : wanted.removeAll seen.reverse = [] := by
    rw [List.removeAll, List.filter_eq_nil_iff]
    intro node hnode
    simpa using h hnode
  rw [Adds, List.eraseDups_append, hnone, List.eraseDups_nil, List.append_nil,
    eraseDups_eq_self (List.nodup_reverse.2 hseen)]

/-- One visit after another. -/
theorem Adds.append (h : Adds seen wanted mid) (h' : Adds mid wanted' out) :
    Adds seen (wanted ++ wanted') out := by
  have hmid : mid.reverse.eraseDups =
      (seen.reverse ++ wanted).eraseDups := by
    rw [h, eraseDups_eraseDups]
  rw [Adds, h', ← List.append_assoc]
  exact eraseDups_append_congr hmid rfl

/-- What was added together with all that is below it is done. -/
theorem Done.of_adds (hdone : Done edges halt size seen)
    (hwanted : ∀ node ∈ wanted, descent edges halt node ⊆ wanted)
    (h : Adds seen wanted out) : Done edges halt size out := by
  refine ⟨h.nodup, fun node hnode hsize x hx => h.mem_iff.2 ?_⟩
  rcases h.mem_iff.1 hnode with hold | hnew
  · exact Or.inl (hdone.below node hold hsize hx)
  · exact Or.inr (hwanted node hnew hx)

theorem adds_visitAll {nodes : List (Node α)}
    (hnodes : ∀ node ∈ nodes, ∀ seen, Done edges halt size seen →
      Adds seen (descent edges halt node) (visit edges halt node seen))
    (hdone : Done edges halt size seen) :
    Adds seen (nodes.flatMap (descent edges halt))
      (visitAll edges halt nodes seen) := by
  induction nodes generalizing seen with
  | nil => exact adds_self hdone.nodup (List.nil_subset _)
  | cons node rest ih =>
    have hfirst := hnodes node (List.mem_cons_self ..) seen hdone
    have hmid := hdone.of_adds (fun _ => descent_subset) hfirst
    have hrest := ih
      (fun other hother => hnodes other (List.mem_cons_of_mem _ hother)) hmid
    rw [visitAll, List.flatMap_cons]
    exact hfirst.append hrest

/-- A visit of a node adds the nodes on the way down from it. -/
theorem adds_visit (node : Node α)
    (hdone : Done edges halt (sizeOf node) seen) :
    Adds seen (descent edges halt node) (visit edges halt node seen) := by
  induction node using induction_below generalizing seen with
  | h node ih =>
    rw [visit_eq]
    split
    · rename_i hseen
      exact adds_self hdone.nodup (hdone.below node hseen (Nat.le_refl _))
    · rename_i hnew
      -- The node comes first, whatever the visit does below it.
      have hbehind {below out : List (Node α)}
          (h : Adds (node :: seen) below out) :
          Adds seen (node :: below) out := by
        rw [Adds] at h ⊢
        rw [h, List.reverse_cons, List.append_assoc, List.singleton_append]
      have hcons : (node :: seen).Nodup := List.nodup_cons.2 ⟨hnew, hdone.nodup⟩
      rw [descent_eq]
      split
      · exact hbehind (adds_self hcons (List.nil_subset _))
      · have hpos := sizeOf_pos node
        have hdone' : Done edges halt (sizeOf node - 1) (node :: seen) :=
          (hdone.mono (Nat.sub_le ..)).cons hnew (by omega)
        refine hbehind (adds_visitAll (fun below hbelow seen hseen => ?_) hdone')
        have hlt := sizeOf_lt_of_mem_next hbelow
        exact ih edges below hbelow (hseen.mono (by omega))

/-- A visit that has seen nothing before lists the nodes on the way down,
each at its first turn. -/
theorem visitAll_reverse (edges : Edges) (halt : Node α → Bool)
    (nodes : List (Node α)) :
    (visitAll edges halt nodes []).reverse =
      (nodes.flatMap (descent edges halt)).eraseDups := by
  have hnil : Done edges halt (sizeOf nodes) [] :=
    ⟨List.nodup_nil, fun _ h => nomatch h⟩
  refine adds_visitAll (fun node hnode seen hseen => ?_) hnil
  have hlt := List.sizeOf_lt_of_mem hnode
  exact adds_visit node (hseen.mono (Nat.le_of_lt hlt))

end Visits

/-! ## Views -/

section Views

variable [DecidableEq α] (own : α → List V)

/-- The first declaring nodes are the frontier, without repeats. -/
theorem firstDeclaring_eq (edges : Edges) (nodes : List (Node α)) :
    firstDeclaring own edges nodes =
      (nodes.flatMap (frontier edges (declares own))).eraseDups := by
  have hfrontier (node : Node α) :
      (descent edges (declares own) node).filter (declares own) =
        frontier edges (declares own) node :=
    filter_descent (fun _ h => h) (fun _ h => Or.inl h) node
  rw [firstDeclaring, ← List.filter_reverse, visitAll_reverse,
    ← eraseDups_filter, List.filter_flatMap]
  simp only [hfrontier]

/-- The nodes that are reached are those on any path, without repeats. -/
theorem reached_eq (edges : Edges) (node : Node α) :
    node.reached edges =
      (descent edges (fun _ => false) node).eraseDups := by
  have h := visitAll_reverse edges (fun _ => false) [node]
  rwa [List.flatMap_singleton] at h

/-- The leaves are the ends of all paths, without repeats. -/
theorem leaves_eq (edges : Edges) (node : Node α) :
    node.leaves edges =
      (frontier edges (fun n => (n.next edges).isEmpty) node).eraseDups := by
  rw [leaves, reached_eq, ← eraseDups_filter, filter_descent]
  · intro n h
    cases h
  · intro n h
    exact Or.inr (List.isEmpty_iff.1 h)

/-- A node with values of its own has these. -/
theorem values_eq_own {node : Node α} (h : declares own node) :
    values own node = own node.label := by
  rw [values, firstDeclaring_eq, List.flatMap_singleton, frontier_eq, if_pos h]
  exact List.flatMap_singleton ..

/-- A node without values of its own has those of its causes. -/
theorem values_eq_subValues {node : Node α} (h : ¬declares own node) :
    values own node = subValues own node := by
  rw [values, subValues, firstDeclaring_eq, firstDeclaring_eq,
    List.flatMap_singleton, frontier_eq, if_neg h]
  rfl

end Views

end Rationale.Node
