import Rationale.Proofs.Copies

/-!
# Tiers as graphs

The views of a tier are read off the nodes of a result.  A tier can also be
taken as a graph of its own, `Node.tier`, that has a node for each node of
the result, with the node's own values.  There are three groups.

* Labels.  `Node.map` changes the labels of a graph.  It copies the graph if
  the old label can be told from the new one.
* Surveys.  A `Survey` is one of the six views, and `Survey.nodes` lists the
  nodes whose values it shows.  `Survey.nodes_copy` carries the lemmas about
  copies over to them.
* Tiers.  `Survey.nodes_tier` says that a survey of a tier visits what it
  visits in the result, and `Survey.nodes_congr` that it visits the same
  nodes in two tiers in which the same nodes declare something.
-/

namespace Rationale

namespace Node

variable {α β γ V W : Type}

/-! ## Labels -/

mutual

/-- The node, with its label and all labels below it changed. -/
def map (f : α → β) : Node α → Node β
  | .mk place label operands causes =>
    .mk place (f label) (mapAll f operands) (mapAll f causes)

/-- Several nodes with their labels changed. -/
def mapAll (f : α → β) : List (Node α) → List (Node β)
  | [] => []
  | node :: nodes => map f node :: mapAll f nodes

end

theorem mapAll_eq (f : α → β) (nodes : List (Node α)) :
    mapAll f nodes = nodes.map (map f) := by
  induction nodes with
  | nil => rfl
  | cons node rest ih => rw [mapAll, ih, List.map_cons]

@[simp]
theorem map_mk (f : α → β) (place : Place) (label : α)
    (operands causes : List (Node α)) :
    map f (.mk place label operands causes) =
      .mk place (f label) (operands.map (map f)) (causes.map (map f)) := by
  rw [map, mapAll_eq, mapAll_eq]

@[simp]
theorem map_label (f : α → β) (node : Node α) :
    (node.map f).label = f node.label := by
  cases node
  rfl

@[simp]
theorem map_next (f : α → β) (edges : Edges) (node : Node α) :
    (node.map f).next edges = (node.next edges).map (map f) := by
  cases node
  cases edges <;> simp [next, causes, operands]

/-- Whether all labels at a node and below it, along causes and operands,
have a property. -/
inductive Everywhere (P : α → Prop) : Node α → Prop where
  | intro {node : Node α} (label : P node.label)
      (below : ∀ edges, ∀ n ∈ node.next edges, Everywhere P n) :
      Everywhere P node

theorem Everywhere.label {P : α → Prop} {node : Node α}
    (h : node.Everywhere P) : P node.label := by
  cases h with
  | intro label below => exact label

theorem Everywhere.of_mem {P : α → Prop} {node n : Node α}
    (h : node.Everywhere P) (edges : Edges) (hn : n ∈ node.next edges) :
    n.Everywhere P := by
  cases h with
  | intro label below => exact below edges n hn

theorem Everywhere.imp {P Q : α → Prop} {node : Node α}
    (h : node.Everywhere P) (himp : ∀ a, P a → Q a) : node.Everywhere Q := by
  induction h with
  | intro label below ih => exact .intro (himp _ label) ih

/-- A change of labels that changes none of a graph's labels. -/
theorem map_congr {f g : α → β} {node : Node α}
    (h : node.Everywhere fun a => f a = g a) : node.map f = node.map g := by
  induction h with
  | @intro node label below ih =>
    obtain ⟨place, a, operands, causes⟩ := node
    have hoperands := List.map_congr_left (ih .operands)
    have hcauses := List.map_congr_left (ih .causes)
    rw [map_mk, map_mk, show f a = g a from label]
    exact congrArg₂ _ hoperands hcauses

theorem map_map (f : α → β) (g : β → γ) (node : Node α) :
    (node.map f).map g = node.map (g ∘ f) := by
  induction node using induction_below with
  | h node ih =>
    obtain ⟨place, label, operands, causes⟩ := node
    have hoperands := List.map_congr_left (ih .operands)
    have hcauses := List.map_congr_left (ih .causes)
    rw [map_mk, map_mk, map_mk, List.map_map, List.map_map]
    exact congrArg₂ _ hoperands hcauses

theorem map_id (node : Node α) : node.map id = node := by
  induction node using induction_below with
  | h node ih =>
    obtain ⟨place, label, operands, causes⟩ := node
    have hoperands := (List.map_congr_left (ih .operands)).trans (List.map_id _)
    have hcauses := (List.map_congr_left (ih .causes)).trans (List.map_id _)
    rw [map_mk]
    exact congrArg₂ _ hoperands hcauses

/-- A change of labels copies graphs if the old labels can be told from the
new ones. -/
theorem copies_map {f : α → β} {g : β → α} (h : Function.LeftInverse g f) :
    Copies (map f) where
  injective := by
    refine Function.LeftInverse.injective (g := map g) fun node => ?_
    rw [map_map, h.comp_eq_id, map_id]
  next := map_next f

/-! ## Surveys -/

/-- The six views of a tier. -/
inductive Survey where
  | values
  | allValues
  | subValues
  | allSubValues
  | rootValues
  | allRootValues
deriving DecidableEq, Repr

namespace Survey

variable [DecidableEq α] [DecidableEq β]

/-- The nodes whose own values the view shows, in order. -/
def nodes (own : α → List V) : Survey → Node α → List (Node α)
  | .values, node => firstDeclaring own .causes [node]
  | .allValues, node => node.reached .operands
  | .subValues, node => firstDeclaring own .causes node.causes
  | .allSubValues, node => firstDeclaring own .operands node.operands
  | .rootValues, node => node.leaves .causes
  | .allRootValues, node => node.leaves .operands

/-- What the view shows. -/
def view (own : α → List V) : Survey → Node α → List V
  | .values, node => node.values own
  | .allValues, node => node.allValues own
  | .subValues, node => node.subValues own
  | .allSubValues, node => node.allSubValues own
  | .rootValues, node => node.rootValues own
  | .allRootValues, node => node.allRootValues own

theorem view_eq (own : α → List V) (survey : Survey) (node : Node α) :
    survey.view own node = ownValues own (survey.nodes own node) := by
  cases survey <;> rfl

/-- A survey of a copy visits the copies of what it visits in the
original. -/
theorem nodes_copy {φ : Node α → Node β} (hφ : Copies φ) {own : α → List V}
    {own' : β → List V} (hown : ∀ node, own' (φ node).label = own node.label)
    (survey : Survey) (node : Node α) :
    survey.nodes own' (φ node) = (survey.nodes own node).map φ := by
  have hcauses : (φ node).causes = node.causes.map φ := hφ.next .causes node
  have hoperands : (φ node).operands = node.operands.map φ :=
    hφ.next .operands node
  cases survey with
  | values => exact hφ.firstDeclaring hown .causes [node]
  | allValues => exact hφ.reached .operands node
  | subValues =>
    rw [nodes, hcauses]
    exact hφ.firstDeclaring hown .causes node.causes
  | allSubValues =>
    rw [nodes, hoperands]
    exact hφ.firstDeclaring hown .operands node.operands
  | rootValues => exact hφ.leaves .causes node
  | allRootValues => exact hφ.leaves .operands node

/-- A survey of a copy that declares the same shows the same. -/
theorem view_copy {φ : Node α → Node β} (hφ : Copies φ) {own : α → List V}
    {own' : β → List V} (hown : ∀ node, own' (φ node).label = own node.label)
    (survey : Survey) (node : Node α) :
    survey.view own' (φ node) = survey.view own node := by
  rw [view_eq, view_eq, nodes_copy hφ hown, Copies.ownValues hown]

end Survey

/-! ## Tiers -/

/-- A tier as a graph of its own.  A node of the tier holds the values that
the tier has for a node, and it keeps the label of that node, which tells
it from others. -/
def tier (own : α → List V) (node : Node α) : Node (α × List V) :=
  node.map fun a => (a, own a)

@[simp]
theorem tier_label (own : α → List V) (node : Node α) :
    (node.tier own).label = (node.label, own node.label) :=
  map_label _ node

theorem copies_tier (own : α → List V) : Copies (tier own) :=
  copies_map (g := Prod.fst) fun _ => rfl

/-- Without its values a tier is the graph that it is read from. -/
theorem map_fst_tier (own : α → List V) (node : Node α) :
    (node.tier own).map Prod.fst = node := by
  rw [tier, map_map]
  exact map_id node

section Tiers

variable [DecidableEq α] [DecidableEq V] (own : α → List V)

theorem Survey.nodes_tier (survey : Survey) (node : Node α) :
    survey.nodes Prod.snd (node.tier own) =
      (survey.nodes own node).map (tier own) :=
  survey.nodes_copy (copies_tier own) (fun n => by rw [tier_label]) node

/-- A survey of the tier shows what the survey of the graph shows. -/
theorem Survey.view_tier (survey : Survey) (node : Node α) :
    survey.view Prod.snd (node.tier own) = survey.view own node :=
  survey.view_copy (copies_tier own) (fun n => by rw [tier_label]) node

end Tiers

theorem frontier_congr {own : α → List V} {own' : α → List W}
    (edges : Edges) {node : Node α}
    (h : node.Everywhere fun a => (own a).isEmpty = (own' a).isEmpty) :
    frontier edges (declares own) node =
      frontier edges (declares own') node := by
  induction h with
  | @intro node label below ih =>
    have hdeclares : declares own node = declares own' node :=
      congrArg Bool.not label
    rw [frontier_eq, frontier_eq, hdeclares,
      List.flatMap_congr fun n hn => ih edges n hn]

/-- Where the same nodes declare something, a survey visits the same
nodes. -/
theorem Survey.nodes_congr [DecidableEq α] {own : α → List V}
    {own' : α → List W} {node : Node α}
    (h : node.Everywhere fun a => (own a).isEmpty = (own' a).isEmpty)
    (survey : Survey) : survey.nodes own node = survey.nodes own' node := by
  have hfirst (edges : Edges) {nodes : List (Node α)}
      (hnodes : ∀ n ∈ nodes,
        n.Everywhere fun a => (own a).isEmpty = (own' a).isEmpty) :
      firstDeclaring own edges nodes = firstDeclaring own' edges nodes := by
    rw [firstDeclaring_eq, firstDeclaring_eq,
      List.flatMap_congr fun n hn => frontier_congr edges (hnodes n hn)]
  cases survey with
  | values => exact hfirst .causes (List.forall_mem_singleton.2 h)
  | subValues =>
    exact hfirst .causes fun n hn => h.of_mem .causes hn
  | allSubValues =>
    exact hfirst .operands fun n hn => h.of_mem .operands hn
  | allValues | rootValues | allRootValues => rfl

end Node

end Rationale
