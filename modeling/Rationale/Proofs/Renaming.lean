import Mathlib.Data.List.Basic
import Mathlib.Logic.Equiv.Basic
import Rationale.Proofs.Copies
import Rationale.View

/-!
# Renaming places

Where a result is made is for telling it from others and says nothing.  So
a result may be moved to other places, all of its nodes at once.  There
are three groups.

* Moving places.  `Place.swap` exchanges what lies below two places, and
  `exists_shifts` moves what lies below any number of places at once and
  leaves all other places alone.
* Moving nodes.  `Node.rename` moves a node and everything below it, and
  `Result.applied_rename` says that an operator may be applied before or
  after.
* What stays.  A renamed node has the same values in each of its tiers
  and the same view.
-/

namespace Rationale

/-! ## Moving places -/

namespace Place

/-- The place with what lies below `p` and below `q` exchanged. -/
def exchange (p q x : Place) : Place :=
  if p.Contains x then q.below (x.path.take (x.path.length - p.path.length))
  else if q.Contains x then
    p.below (x.path.take (x.path.length - q.path.length))
  else x

theorem exchange_below_left (p q : Place) (steps : List Nat) :
    exchange p q (p.below steps) = q.below steps := by
  rw [exchange, if_pos (p.contains_below steps)]
  simp

theorem exchange_below_right {p q : Place} (h : p.Apart q)
    (steps : List Nat) : exchange p q (q.below steps) = p.below steps := by
  rw [exchange, if_neg (h.symm.not_contains (q.contains_below steps)),
    if_pos (q.contains_below steps)]
  simp

theorem exchange_of_not_contains {p q x : Place} (hp : ¬p.Contains x)
    (hq : ¬q.Contains x) : exchange p q x = x := by
  rw [exchange, if_neg hp, if_neg hq]

theorem exchange_exchange {p q : Place} (h : p.Apart q) (x : Place) :
    exchange p q (exchange p q x) = x := by
  by_cases hp : p.Contains x
  · obtain ⟨steps, rfl⟩ := hp.exists_below
    rw [exchange_below_left, exchange_below_right h]
  by_cases hq : q.Contains x
  · obtain ⟨steps, rfl⟩ := hq.exists_below
    rw [exchange_below_right h, exchange_below_left]
  · rw [exchange_of_not_contains hp hq, exchange_of_not_contains hp hq]

/-- Exchanges what lies below two places that are apart. -/
def swap {p q : Place} (h : p.Apart q) : Equiv.Perm Place where
  toFun := exchange p q
  invFun := exchange p q
  left_inv := exchange_exchange h
  right_inv := exchange_exchange h

/-- Whether a renaming moves what lies below `p` to below `q`. -/
def Shifts (ρ : Equiv.Perm Place) (p q : Place) : Prop :=
  ∀ steps, ρ (p.below steps) = q.below steps

theorem Shifts.eq {ρ : Equiv.Perm Place} {p q : Place} (h : Shifts ρ p q) :
    ρ p = q := h []

theorem Shifts.child {ρ : Equiv.Perm Place} {p q : Place} (h : Shifts ρ p q)
    (i : Nat) : Shifts ρ (p.child i) (q.child i) := by
  intro steps
  rw [below_child, below_child, h]

/-- What lies below some places can be moved below some other places, if
all of them are apart. -/
theorem exists_shifts {ι : Type} (source target : ι → Place) {is : List ι}
    (hnodup : is.Nodup)
    (hsource : ∀ i ∈ is, ∀ j ∈ is, i ≠ j → (source i).Apart (source j))
    (htarget : ∀ i ∈ is, ∀ j ∈ is, i ≠ j → (target i).Apart (target j))
    (hcross : ∀ i ∈ is, ∀ j ∈ is, (source i).Apart (target j)) :
    ∃ ρ : Equiv.Perm Place,
      (∀ i ∈ is, Shifts ρ (source i) (target i)) ∧
      ∀ x, (∀ i ∈ is, ¬(source i).Contains x ∧ ¬(target i).Contains x) →
        ρ x = x := by
  induction is with
  | nil => exact ⟨Equiv.refl Place, fun i hi => (nomatch hi), fun x _ => rfl⟩
  | cons i rest ih =>
    obtain ⟨hi, hrest⟩ := List.nodup_cons.1 hnodup
    have hmem {j : ι} (hj : j ∈ rest) : j ∈ i :: rest :=
      List.mem_cons_of_mem _ hj
    have hself : i ∈ i :: rest := List.mem_cons_self ..
    obtain ⟨ρ, hshifts, hfixes⟩ := ih hrest
      (fun j hj k hk => hsource j (hmem hj) k (hmem hk))
      (fun j hj k hk => htarget j (hmem hj) k (hmem hk))
      (fun j hj k hk => hcross j (hmem hj) k (hmem hk))
    refine ⟨ρ.trans (swap (hcross i hself i hself)), ?_, ?_⟩
    · intro j hj steps
      show exchange (source i) (target i) (ρ ((source j).below steps)) = _
      rcases List.mem_cons.1 hj with rfl | hj
      · rw [hfixes, exchange_below_left]
        intro k hk
        have hne : j ≠ k := fun heq => hi (heq ▸ hk)
        have hbelow := (source j).contains_below steps
        exact ⟨(hsource j hself k (hmem hk) hne).not_contains hbelow,
          (hcross j hself k (hmem hk)).not_contains hbelow⟩
      · have hne : i ≠ j := fun heq => hi (heq ▸ hj)
        have hbelow := (target j).contains_below steps
        rw [hshifts j hj, exchange_of_not_contains]
        · exact (hcross i hself j (hmem hj)).symm.not_contains hbelow
        · exact (htarget i hself j (hmem hj) hne).symm.not_contains hbelow
    · intro x hx
      show exchange (source i) (target i) (ρ x) = x
      rw [hfixes x fun j hj => hx j (hmem hj),
        exchange_of_not_contains (hx i hself).1 (hx i hself).2]

end Place

/-! ## Moving nodes -/

namespace Node

variable {α V : Type}

mutual

/-- The node, with it and all that lies below it moved. -/
def rename (ρ : Place → Place) : Node α → Node α
  | .mk place label operands causes =>
    .mk (ρ place) label (renameAll ρ operands) (renameAll ρ causes)

/-- Several nodes moved. -/
def renameAll (ρ : Place → Place) : List (Node α) → List (Node α)
  | [] => []
  | node :: nodes => rename ρ node :: renameAll ρ nodes

end

theorem renameAll_eq (ρ : Place → Place) (nodes : List (Node α)) :
    renameAll ρ nodes = nodes.map (rename ρ) := by
  induction nodes with
  | nil => rfl
  | cons node rest ih => rw [renameAll, ih, List.map_cons]

@[simp]
theorem rename_mk (ρ : Place → Place) (place : Place) (label : α)
    (operands causes : List (Node α)) :
    rename ρ (.mk place label operands causes) =
      .mk (ρ place) label (operands.map (rename ρ))
        (causes.map (rename ρ)) := by
  rw [rename, renameAll_eq, renameAll_eq]

@[simp]
theorem rename_label (ρ : Place → Place) (node : Node α) :
    (node.rename ρ).label = node.label := by
  cases node
  rfl

@[simp]
theorem rename_next (ρ : Place → Place) (edges : Edges) (node : Node α) :
    (node.rename ρ).next edges = (node.next edges).map (rename ρ) := by
  cases node
  cases edges <;> simp [next, causes, operands]

@[simp]
theorem rename_causes (ρ : Place → Place) (node : Node α) :
    (node.rename ρ).causes = node.causes.map (rename ρ) :=
  rename_next ρ .causes node

/-- Moving back undoes a move. -/
theorem rename_rename {ρ σ : Place → Place} (h : ∀ p, σ (ρ p) = p)
    (node : Node α) : (node.rename ρ).rename σ = node := by
  induction node using induction_below with
  | h node ih =>
    obtain ⟨place, label, operands, causes⟩ := node
    have hmap (edges : Edges) {nodes : List (Node α)}
        (hnodes : nodes ⊆ (mk place label operands causes).next edges) :
        (nodes.map (rename ρ)).map (rename σ) = nodes := by
      rw [List.map_map]
      exact (List.map_congr_left fun below hbelow =>
        ih edges below (hnodes hbelow)).trans (List.map_id _)
    have hoperands : (operands.map (rename ρ)).map (rename σ) = operands :=
      hmap .operands (List.Subset.refl _)
    have hcauses : (causes.map (rename ρ)).map (rename σ) = causes :=
      hmap .causes (List.Subset.refl _)
    rw [rename_mk, rename_mk, h, hoperands, hcauses]

theorem rename_injective (ρ : Equiv.Perm Place) :
    Function.Injective (rename (α := α) ρ) :=
  Function.LeftInverse.injective (g := rename ρ.symm)
    (rename_rename ρ.symm_apply_apply)

end Node

namespace Result

variable {τ : Type}

@[simp]
theorem satisfied_rename (ρ : Place → Place) (r : Result τ) :
    satisfied (Node.rename ρ r) = satisfied r := by
  rw [satisfied, satisfied, Node.rename_label]

@[simp]
theorem map_satisfied_rename (ρ : Place → Place) (rs : List (Result τ)) :
    (rs.map (Node.rename ρ)).map satisfied = rs.map satisfied := by
  rw [List.map_map]
  exact List.map_congr_left fun r _ => satisfied_rename ρ r

theorem ofPositions_rename (ρ : Place → Place) (place : Place)
    (finding : Finding τ) (rs : List (Result τ)) (causes : List Nat) :
    ofPositions (ρ place) finding (rs.map (Node.rename ρ)) causes =
      Node.rename ρ (ofPositions place finding rs causes) := by
  rw [ofPositions, ofPositions, Node.rename_mk, List.map_filterMap]
  simp only [List.getElem?_map]

theorem applied_rename (ρ : Place → Place) (place : Place) (op : Operator)
    (rs : List (Result τ)) (statement : String) (style : Notation) :
    applied (ρ place) op (rs.map (Node.rename ρ)) statement style =
      Node.rename ρ (applied place op rs statement style) := by
  simp only [applied, map_satisfied_rename, ← List.map_take,
    ofPositions_rename]

theorem fromOperator_rename (ρ : Place → Place) (place : Place)
    (op : Operator) (rs : List (Result τ)) (statement : String)
    (style : Notation) :
    fromOperator (ρ place) op (rs.map (Node.rename ρ)) statement style =
      (fromOperator place op rs statement style).map (Node.rename ρ) := by
  rw [fromOperator, fromOperator, List.length_map, applied_rename]
  split <;> rfl

end Result

/-! ## What stays -/

namespace Node

variable {α V : Type}

theorem copies_rename (ρ : Equiv.Perm Place) :
    Copies (rename (α := α) ρ) where
  injective := rename_injective ρ
  next := rename_next ρ

variable (ρ : Equiv.Perm Place) (own : α → List V) [DecidableEq α]

theorem ownValues_firstDeclaring_rename (edges : Edges)
    (nodes : List (Node α)) :
    ownValues own (firstDeclaring own edges (nodes.map (rename ρ))) =
      ownValues own (firstDeclaring own edges nodes) := by
  have hown (node : Node α) : own (node.rename ρ).label = own node.label := by
    rw [rename_label]
  rw [(copies_rename ρ).firstDeclaring hown, Copies.ownValues hown]

end Node

namespace Result

variable {τ : Type} [DecidableEq τ] (ρ : Equiv.Perm Place)

theorem views_rename {rs : List (Result τ)}
    (h : ∀ r ∈ rs, view (Node.rename ρ r) = view r) (seen : List (Result τ)) :
    views (seen.map (Node.rename ρ)) (rs.map (Node.rename ρ)) =
      views seen rs := by
  induction rs generalizing seen with
  | nil => rfl
  | cons r rest ih =>
    have hmem : Node.rename ρ r ∈ seen.map (Node.rename ρ) ↔ r ∈ seen :=
      List.mem_map_of_injective (Node.rename_injective ρ)
    have hrest := ih fun other hother => h other (List.mem_cons_of_mem _ hother)
    rw [List.map_cons, views, views, h r (List.mem_cons_self ..),
      ← List.map_cons, hrest, hrest]
    simp only [hmem]

/-- A moved result has the same view. -/
theorem view_rename (r : Result τ) : view (Node.rename ρ r) = view r := by
  induction r using Node.induction_below with
  | h r ih =>
    obtain ⟨place, finding, operands, causes⟩ := r
    have hviews := views_rename ρ (ih .causes) []
    have hhead : viewHead (causes.map (Node.rename ρ)) = viewHead causes := by
      cases causes with
      | nil => rfl
      | cons r rest =>
        exact ih .causes r (List.mem_cons_self ..)
    have hcauses : views [] (causes.map (Node.rename ρ)) = views [] causes :=
      hviews
    rw [Node.rename_mk]
    cases hkind : finding.kind with
    | atomic => simp only [view, hkind]
    | declared => simp only [view, hkind, hcauses]
    | applied op => cases op <;> simp only [view, hkind, hcauses, hhead]

end Result

end Rationale
