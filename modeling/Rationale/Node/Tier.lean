import Rationale.Node

/-!
# Tiers

A tier reads a graph of nodes through `own`, the values that each node
declares of its own.  A node without any only forwards.  There are two
groups.

* Visits.  `Node.visit` walks down from a node, along causes or along
  operands, and lists every node once, at its first turn.  It does not
  walk on below a node at which it is told to halt.  The list has the
  latest node first, and the views turn it round.
* Views.  Each view is the own values of some visited nodes: the first
  declaring ones, all of them, or the leaves.

Every view counts a shared node once and keeps equal values of different
nodes.
-/

namespace Rationale

/-- The two ways down from a node. -/
inductive Edges where
  | causes
  | operands
deriving DecidableEq, Repr

namespace Node

variable {α V : Type}

/-- The nodes one step down. -/
def next (edges : Edges) (node : Node α) : List (Node α) :=
  match edges with
  | .causes => node.causes
  | .operands => node.operands

/-- Whether the node declares a value. -/
def declares (own : α → List V) (node : Node α) : Bool :=
  !(own node.label).isEmpty

/-! ## Visits -/

section Visits

variable [DecidableEq α] (edges : Edges) (halt : Node α → Bool)

mutual

/-- Visits a node and what lies below it, after the nodes in `seen`.  The
node seen last stands first. -/
def visit : Node α → List (Node α) → List (Node α)
  | .mk place label operands causes, seen =>
    let node := Node.mk place label operands causes
    if node ∈ seen then seen
    else if halt node then node :: seen
    else
      match edges with
      | .causes => visitAll causes (node :: seen)
      | .operands => visitAll operands (node :: seen)

/-- Visits several nodes, one after the other. -/
def visitAll : List (Node α) → List (Node α) → List (Node α)
  | [], seen => seen
  | node :: nodes, seen => visitAll nodes (visit node seen)

end

end Visits

/-! ## Views -/

section Views

variable [DecidableEq α] (own : α → List V)

/-- The own values of some nodes, in order. -/
def ownValues (nodes : List (Node α)) : List V :=
  nodes.flatMap fun node => own node.label

/-- The first declaring nodes that are reached from some nodes. -/
def firstDeclaring (edges : Edges) (nodes : List (Node α)) : List (Node α) :=
  ((visitAll edges (declares own) nodes []).filter (declares own)).reverse

/-- All nodes that are reached from a node, the node included. -/
def reached (edges : Edges) (node : Node α) : List (Node α) :=
  (visit edges (fun _ => false) node []).reverse

/-- The nodes that are reached from a node and lead no further. -/
def leaves (edges : Edges) (node : Node α) : List (Node α) :=
  (node.reached edges).filter fun leaf => (leaf.next edges).isEmpty

/-- The values of the first declaring nodes along causes. -/
def values (node : Node α) : List V :=
  ownValues own (firstDeclaring own .causes [node])

/-- Every value declared at the node or below it. -/
def allValues (node : Node α) : List V :=
  ownValues own (node.reached .operands)

/-- The values that the causes of the node would have, together. -/
def subValues (node : Node α) : List V :=
  ownValues own (firstDeclaring own .causes node.causes)

/-- The values of the first declaring nodes below the node, along
operands. -/
def allSubValues (node : Node α) : List V :=
  ownValues own (firstDeclaring own .operands node.operands)

/-- The values of the leaves along causes. -/
def rootValues (node : Node α) : List V :=
  ownValues own (node.leaves .causes)

/-- The values of the leaves along operands. -/
def allRootValues (node : Node α) : List V :=
  ownValues own (node.leaves .operands)

end Views

end Node

/-- A list of texts without its later repeats. -/
def distinct (texts : List String) : List String := texts.eraseDups

end Rationale
