import Mathlib.Data.List.Basic
import Rationale.Proofs.Frontier

/-!
# Copied graphs

A graph of nodes can be copied: moved to other places, or given other
labels.  As long as different nodes have different copies, a copy is walked
through like the original.

`Copies` says this of a function on nodes.  `Copies.visit` is the induction
over the node, and the lemmas below it carry it over to what the views of a
tier visit.
-/

namespace Rationale.Node

variable {α β V W : Type}

/-- The function copies graphs.  Different nodes have different copies, and
below a copy are the copies of what is below the original. -/
structure Copies (φ : Node α → Node β) : Prop where
  injective : Function.Injective φ
  next : ∀ edges node, (φ node).next edges = (node.next edges).map φ

namespace Copies

variable [DecidableEq α] [DecidableEq β] {φ : Node α → Node β}

theorem visitAll (edges : Edges) (halt : Node β → Bool)
    (nodes : List (Node α))
    (h : ∀ node ∈ nodes, ∀ seen,
      visit edges halt (φ node) (seen.map φ) =
        (visit edges (fun n => halt (φ n)) node seen).map φ)
    (seen : List (Node α)) :
    Node.visitAll edges halt (nodes.map φ) (seen.map φ) =
      (Node.visitAll edges (fun n => halt (φ n)) nodes seen).map φ := by
  induction nodes generalizing seen with
  | nil => rfl
  | cons node rest ih =>
    have hrest := ih fun n hn => h n (List.mem_cons_of_mem node hn)
    rw [List.map_cons, Node.visitAll, Node.visitAll,
      h node List.mem_cons_self, hrest]

/-- The copy is visited like the original. -/
theorem visit (hφ : Copies φ) (edges : Edges) (halt : Node β → Bool)
    (node : Node α) (seen : List (Node α)) :
    visit edges halt (φ node) (seen.map φ) =
      (visit edges (fun n => halt (φ n)) node seen).map φ := by
  induction node using induction_below generalizing seen with
  | h node ih =>
    have hmem : φ node ∈ seen.map φ ↔ node ∈ seen :=
      List.mem_map_of_injective hφ.injective
    have hbelow := visitAll edges halt _ (ih edges) (node :: seen)
    rw [visit_eq, visit_eq, hφ.next]
    simp only [hmem]
    split
    · rfl
    · split
      · rfl
      · exact hbelow

theorem reached (hφ : Copies φ) (edges : Edges) (node : Node α) :
    (φ node).reached edges = (node.reached edges).map φ := by
  have hvisit := hφ.visit edges (fun _ => false) node []
  rw [Node.reached, Node.reached, List.map_reverse, ← hvisit]
  rfl

theorem leaves (hφ : Copies φ) (edges : Edges) (node : Node α) :
    (φ node).leaves edges = (node.leaves edges).map φ := by
  have hleaf : (fun leaf : Node β => (leaf.next edges).isEmpty) ∘ φ =
      fun leaf => (leaf.next edges).isEmpty := by
    funext leaf
    simp [hφ.next]
  rw [Node.leaves, Node.leaves, hφ.reached, List.filter_map, hleaf]

variable {own : α → List V} {own' : β → List V}

/-- If copies declare what the originals do, the same nodes declare
first. -/
theorem firstDeclaring (hφ : Copies φ)
    (hown : ∀ node, own' (φ node).label = own node.label) (edges : Edges)
    (nodes : List (Node α)) :
    firstDeclaring own' edges (nodes.map φ) =
      (firstDeclaring own edges nodes).map φ := by
  have hdeclares : (fun n => declares own' (φ n)) = declares own := by
    funext n
    rw [declares, declares, hown]
  have hvisits := visitAll edges (declares own') nodes
    (fun node _ seen => hφ.visit edges (declares own') node seen) []
  rw [List.map_nil, hdeclares] at hvisits
  rw [Node.firstDeclaring, Node.firstDeclaring, hvisits, List.filter_map,
    List.map_reverse, ← hdeclares]
  rfl

omit [DecidableEq α] [DecidableEq β] in
theorem ownValues (hown : ∀ node, own' (φ node).label = own node.label)
    (nodes : List (Node α)) :
    ownValues own' (nodes.map φ) = ownValues own nodes := by
  rw [Node.ownValues, Node.ownValues, List.flatMap_map]
  exact List.flatMap_congr fun node _ => hown node

end Copies

end Rationale.Node
