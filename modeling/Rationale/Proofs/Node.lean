import Mathlib.Logic.Relation
import Rationale.Node.Tier

/-!
# Places and reachable nodes

Where nodes are made, and which of them lie below a node.  There are two
groups.

* Places.  `Place.below` walks down from a place, `Place.Contains` says
  that a place lies at or below another one, and places that are `Apart`
  have nothing below them in common.
* Nodes.  `Node.Reaches` says that a node is found below another one along
  causes or along operands.  `Node.induction_below` is the induction over
  both ways down, one step at a time, and `Node.induction_reaches` the
  induction over one way down, any number of steps at a time.
-/

namespace Rationale

/-! ## Places -/

namespace Place

/-- The place that some steps lead to, last step first. -/
def below (p : Place) : List Nat → Place
  | [] => p
  | step :: above => (p.below above).child step

/-- Whether the second place is the first one or lies below it. -/
def Contains (p q : Place) : Prop := p.path <:+ q.path

/-- Neither place lies below the other. -/
def Apart (p q : Place) : Prop := ¬p.Contains q ∧ ¬q.Contains p

instance (p q : Place) : Decidable (p.Contains q) :=
  inferInstanceAs (Decidable (p.path <:+ q.path))

instance (p q : Place) : Decidable (p.Apart q) :=
  inferInstanceAs (Decidable (_ ∧ _))

@[simp]
theorem child_path (p : Place) (i : Nat) : (p.child i).path = i :: p.path := rfl

@[simp]
theorem below_path (p : Place) (steps : List Nat) :
    (p.below steps).path = steps ++ p.path := by
  induction steps with
  | nil => rfl
  | cons step above ih => rw [below, child_path, ih, List.cons_append]

theorem ext_path {p q : Place} : p = q ↔ p.path = q.path :=
  ⟨congrArg path, eq_of_path⟩

/-- Walking on from a place below is walking further. -/
theorem below_append (p : Place) (steps above : List Nat) :
    p.below (steps ++ above) = (p.below above).below steps := by
  rw [ext_path]
  simp

theorem below_child (p : Place) (i : Nat) (steps : List Nat) :
    (p.child i).below steps = p.below (steps ++ [i]) := by
  rw [below_append]
  rfl

theorem contains_refl (p : Place) : p.Contains p := List.suffix_refl _

theorem contains_below (p : Place) (steps : List Nat) :
    p.Contains (p.below steps) := by
  rw [Contains, below_path]
  exact List.suffix_append ..

theorem contains_child (p : Place) (i : Nat) : p.Contains (p.child i) :=
  p.contains_below [i]

theorem Contains.trans {p q x : Place} (hpq : p.Contains q)
    (hqx : q.Contains x) : p.Contains x := List.IsSuffix.trans hpq hqx

/-- What lies below a place is found by walking down from it. -/
theorem Contains.exists_below {p q : Place} (h : p.Contains q) :
    ∃ steps, q = p.below steps := by
  obtain ⟨steps, hsteps⟩ := h
  exact ⟨steps, ext_path.2 (by rw [below_path, hsteps])⟩

/-- Two places above one place are not apart. -/
theorem Apart.not_contains {p q x : Place} (h : p.Apart q)
    (hp : p.Contains x) : ¬q.Contains x := by
  intro hq
  rcases List.suffix_or_suffix_of_suffix hp hq with hpq | hqp
  · exact h.1 hpq
  · exact h.2 hqp

theorem Apart.ne {p q : Place} (h : p.Apart q) : p ≠ q := by
  rintro rfl
  exact h.1 p.contains_refl

theorem Apart.symm {p q : Place} (h : p.Apart q) : q.Apart p := ⟨h.2, h.1⟩

/-- What lies below places that are apart is apart. -/
theorem Apart.of_contains {p q p' q' : Place} (h : p.Apart q)
    (hp : p.Contains p') (hq : q.Contains q') : p'.Apart q' :=
  ⟨fun hpq => h.not_contains (hp.trans hpq) hq,
    fun hqp => h.not_contains hp (hq.trans hqp)⟩

/-- The places directly below a place are apart. -/
theorem apart_child (p : Place) {i j : Nat} (h : i ≠ j) :
    (p.child i).Apart (p.child j) := by
  have hnot {i j : Nat} (h : i ≠ j) : ¬(p.child i).Contains (p.child j) := by
    intro hij
    rw [Contains, child_path, child_path, List.suffix_cons_iff] at hij
    rcases hij with heq | hlong
    · exact h (List.cons.inj heq).1
    · have := hlong.length_le
      simp only [List.length_cons] at this
      omega
  exact ⟨hnot h, hnot h.symm⟩

theorem child_injective (p : Place) : Function.Injective p.child := by
  intro i j hij
  by_cases h : i = j
  · exact h
  · exact absurd hij (p.apart_child h).ne

end Place

/-! ## Nodes -/

namespace Node

variable {α : Type}

/-- Whether the second node is the first one or is found below it. -/
def Reaches (edges : Edges) : Node α → Node α → Prop :=
  Relation.ReflTransGen fun a b => b ∈ a.next edges

/-- What a node reaches is the node itself or is reached one step down. -/
theorem reaches_iff {edges : Edges} {a n : Node α} :
    a.Reaches edges n ↔ n = a ∨ ∃ b ∈ a.next edges, b.Reaches edges n := by
  rw [Reaches, Relation.ReflTransGen.cases_head_iff]
  exact or_congr eq_comm Iff.rfl

theorem exists_reaches_iff {edges : Edges} {a : Node α}
    {P : Node α → Prop} :
    (∃ n, a.Reaches edges n ∧ P n) ↔
      P a ∨ ∃ b ∈ a.next edges, ∃ n, b.Reaches edges n ∧ P n := by
  constructor
  · rintro ⟨n, hn, hP⟩
    rcases reaches_iff.1 hn with rfl | ⟨b, hb, hbn⟩
    · exact Or.inl hP
    · exact Or.inr ⟨b, hb, n, hbn, hP⟩
  · rintro (hP | ⟨b, hb, n, hbn, hP⟩)
    · exact ⟨a, reaches_iff.2 (Or.inl rfl), hP⟩
    · exact ⟨n, reaches_iff.2 (Or.inr ⟨b, hb, hbn⟩), hP⟩

theorem sizeOf_pos (node : Node α) : 0 < sizeOf node := by
  obtain ⟨place, label, operands, causes⟩ := node
  simp only [mk.sizeOf_spec]
  omega

theorem sizeOf_lt_of_mem_next {edges : Edges} {node below : Node α}
    (h : below ∈ node.next edges) : sizeOf below < sizeOf node := by
  obtain ⟨place, label, operands, causes⟩ := node
  have hlt := List.sizeOf_lt_of_mem h
  cases edges with
  | causes =>
    simp only [next, Node.causes] at hlt
    simp only [mk.sizeOf_spec]
    omega
  | operands =>
    simp only [next, Node.operands] at hlt
    simp only [mk.sizeOf_spec]
    omega

/-- To prove something of a node, prove it from the nodes one step down. -/
theorem induction_below {motive : Node α → Prop}
    (h : ∀ node, (∀ edges, ∀ below ∈ node.next edges, motive below) →
      motive node)
    (node : Node α) : motive node := by
  refine h node fun edges below hbelow => ?_
  have hlt := sizeOf_lt_of_mem_next hbelow
  exact induction_below h below
termination_by sizeOf node

/-- To prove something of a node, prove it from all nodes that are reached
below it. -/
theorem induction_reaches (edges : Edges) {motive : Node α → Prop}
    (h : ∀ node, (∀ below ∈ node.next edges, ∀ n, below.Reaches edges n →
      motive n) → motive node)
    (node : Node α) : motive node := by
  suffices hall : ∀ n, node.Reaches edges n → motive n from hall node .refl
  induction node using induction_below with
  | h node ih =>
    have hbelow : ∀ below ∈ node.next edges, ∀ n, below.Reaches edges n →
        motive n := ih edges
    intro n hn
    rcases reaches_iff.1 hn with rfl | ⟨below, hmem, hn⟩
    · exact h _ hbelow
    · exact hbelow below hmem n hn

theorem Reaches.step {edges : Edges} {a b n : Node α}
    (hb : b ∈ a.next edges) (hn : b.Reaches edges n) : a.Reaches edges n :=
  Relation.ReflTransGen.head hb hn

end Node

end Rationale
