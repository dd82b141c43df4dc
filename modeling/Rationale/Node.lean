/-!
# Nodes

A node says something and rests on other nodes: its operands, and those
among them that are its causes.  One node may be an operand of several
others, so the nodes below a node form a directed acyclic graph.

The graph is kept as a tree in which a shared node occurs several times.
`Place` is where a node was made, and no two nodes made at one place say
the same over the same nodes.  So two occurrences are the same node
exactly when they are equal, and identity needs no assumption: a node
differs from everything below it, and equal nodes have equal views.
-/

namespace Rationale

/-! ## Places -/

/-- A number for some steps.  It is there to tell most paths apart at
once. -/
def Place.codeOf : List Nat → Nat
  | [] => 0
  | step :: above => (codeOf above * 65599 + step + 1) % 4294967296

/-- Where something is made.  Each place has places of its own below it. -/
structure Place where
  /-- The steps to the place, last step first. -/
  path : List Nat
  /-- The number of the path. -/
  code : Nat
  /-- The number belongs to the path. -/
  code_eq : code = Place.codeOf path

namespace Place

/-- Two places with one path are the same. -/
theorem eq_of_path {p q : Place} (h : p.path = q.path) : p = q := by
  obtain ⟨path, code, hp⟩ := p
  obtain ⟨path', code', hq⟩ := q
  subst h hp hq
  rfl

instance : DecidableEq Place := fun p q =>
  if h : p.code = q.code ∧ p.path = q.path then isTrue (eq_of_path h.2)
  else isFalse fun e => h ⟨by rw [e], by rw [e]⟩

/-- The place of a number. -/
def root (n : Nat) : Place := ⟨[n], codeOf [n], rfl⟩

/-- The place number `i` below a place. -/
def child (p : Place) (i : Nat) : Place :=
  ⟨i :: p.path, (p.code * 65599 + i + 1) % 4294967296,
    by rw [p.code_eq, codeOf]⟩

end Place

/-! ## Nodes -/

/-- A node of a graph with labels in `α`. -/
inductive Node (α : Type) where
  /-- The node made at `place`, with its operands and causes in order. -/
  | mk (place : Place) (label : α) (operands causes : List (Node α))

namespace Node

variable {α : Type}

/-- Where the node was made. -/
def place : Node α → Place
  | .mk place _ _ _ => place

/-- What the node says. -/
def label : Node α → α
  | .mk _ label _ _ => label

/-- The nodes that the node rests on. -/
def operands : Node α → List (Node α)
  | .mk _ _ operands _ => operands

/-- The nodes that explain what the node says. -/
def causes : Node α → List (Node α)
  | .mk _ _ _ causes => causes

/-! ## Identity -/

mutual

/-- Whether two nodes are the same.  The place is compared first, and it
tells different nodes apart almost always. -/
def decEq [DecidableEq α] : (a b : Node α) → Decidable (a = b)
  | .mk p l os cs, .mk q m ps ds =>
    if hp : p = q then withPtrEqDecEq _ _ fun _ =>
      if hl : l = m then
        match decEqAll os ps with
        | isTrue ho =>
          match decEqAll cs ds with
          | isTrue hc => isTrue (by rw [hp, hl, ho, hc])
          | isFalse hc =>
            isFalse fun h => hc (by injection h)
        | isFalse ho => isFalse fun h => ho (by injection h)
      else isFalse fun h => hl (by injection h)
    else isFalse fun h => hp (by injection h)

/-- Whether two lists of nodes are the same. -/
def decEqAll [DecidableEq α] : (as bs : List (Node α)) → Decidable (as = bs)
  | [], [] => isTrue rfl
  | [], _ :: _ => isFalse (by simp)
  | _ :: _, [] => isFalse (by simp)
  | a :: as, b :: bs =>
    match decEq a b with
    | isTrue h =>
      match decEqAll as bs with
      | isTrue hs => isTrue (by rw [h, hs])
      | isFalse hs => isFalse fun e => hs (by injection e)
    | isFalse h => isFalse fun e => h (by injection e)

end

instance [DecidableEq α] : DecidableEq (Node α) := decEq

/-- Whether a node is one of some nodes.  The numbers of the places are
compared first. -/
def decMem [DecidableEq α] (a : Node α) :
    (nodes : List (Node α)) → Decidable (a ∈ nodes)
  | [] => isFalse (by simp)
  | n :: nodes =>
    if h : a.place.code = n.place.code ∧ a = n then isTrue (by simp [h.2])
    else
      match decMem a nodes with
      | isTrue hs => isTrue (by simp [hs])
      | isFalse hs => isFalse (by
          have hn : a ≠ n := fun e => h ⟨by rw [e], e⟩
          simp [hn, hs])

instance [DecidableEq α] (a : Node α) (nodes : List (Node α)) :
    Decidable (a ∈ nodes) := decMem a nodes

end Node

end Rationale
