import Rationale.Proofs.Elision
import Rationale.Proofs.Evidence
import Rationale.Proofs.Frontier
import Rationale.Proofs.Polarity

/-!
# Results of one family

A result that is made of predicates by conjunctions is printed as one flat
list, in whatever way they are nested.  Disjunctions are the same.  There are
four groups.

* Families.  An operator of a family that is decided by an outcome is settled
  by no other outcome, and its blocks merge.
* Predicates.  `predicates` lists the predicates that a result was made of,
  and `Grouped` says that it was made of them by operators of one family.
* Evidence.  `evidence` lists the predicates that explain such a result.  By
  `evidence_applied` they are those that explain its causes, so by `items_eq`
  each of them brings one line into a block of the family, and nothing else
  brings any.
* Rendering.  `flatReason` and `flatOutline` print a list of predicates.  By
  `flat_of_view` a block of their lines is printed in this way.
-/

namespace Rationale

/-! ## Families -/

/-- Blocks of an operator that is decided by an outcome merge. -/
theorem Operator.collapsesWith_self {op : Operator} {wanted : Bool}
    (h : op.family.decidedBy = some wanted) : op.collapsesWith op := by
  cases op with
  | and | or | andAlso | orElse => rfl
  | xor | not => cases h

/-- A family that is decided by an outcome has an operator. -/
theorem exists_of_decidedBy {family : Family} {wanted : Bool}
    (h : family.decidedBy = some wanted) :
    ∃ op : Operator, op.family = family := by
  cases family with
  | conjunction => exact ⟨.and, rfl⟩
  | disjunction => exact ⟨.or, rfl⟩
  | exclusive | negation => cases h

/-- An operator is settled by the outcome that decides its family, or by
none. -/
theorem Operator.settles_eq_false {op : Operator} {wanted outcome : Bool}
    (h : op.family.decidedBy = some wanted) (hother : outcome ≠ wanted) :
    op.settles outcome = false := by
  cases op with
  | and | or => rfl
  | xor | not => cases h
  | andAlso | orElse =>
    obtain rfl := Option.some.inj h
    rw [settles, decide_eq_false_iff_not]
    exact fun hsettles => hother (Option.some.inj hsettles).symm

/-! ## Predicates -/

namespace Result

variable {τ : Type}

/-- The predicates that a result was made of, from left to right.  Those that
were cut off are not among them. -/
def predicates (r : Result τ) : List (Result τ) :=
  Node.frontier .operands (fun n => n.label.kind = .atomic) r

theorem predicates_atomic (place : Place) (satisfied : Bool)
    (declaration : Declaration τ) :
    (atomic place satisfied declaration).predicates =
      [atomic place satisfied declaration] := by
  rw [predicates, Node.frontier_eq]
  rfl

theorem predicates_eq {r : Result τ} (h : r.label.kind ≠ .atomic) :
    r.predicates = r.operands.flatMap predicates := by
  rw [predicates, Node.frontier_eq, if_neg (by simpa using h)]
  rfl

theorem predicates_applied (place : Place) (op : Operator)
    (operands : List (Result τ)) (statement : String) (style : Notation) :
    (applied place op operands statement style).predicates =
      (reached op operands).flatMap predicates := by
  rw [predicates_eq (by simp [applied_label]), applied_operands]

/-- A chain gives up its operands without losing a predicate. -/
theorem flatMap_predicates_chainOperands (op : Operator) (r : Result τ) :
    (chainOperands op r).flatMap predicates = r.predicates := by
  rw [chainOperands]
  split
  · rename_i hchain
    exact (predicates_eq (by simp [hchain.1])).symm
  · exact List.flatMap_singleton ..

/-- Predicates that declare something, and operators of one family over
them. -/
abbrev Grouped (family : Family) : Result τ → Prop :=
  Composed (·.assertions ≠ []) (·.family = family)

namespace Grouped

variable {family : Family} {wanted : Bool} {r : Result τ}

theorem predicates_ne_nil (h : Grouped family r) : r.predicates ≠ [] := by
  induction h with
  | atomic place satisfied declares =>
    rw [predicates_atomic]
    exact List.cons_ne_nil _ _
  | @applied place op operands statement style member accepts parts ih =>
    obtain ⟨part, hpart⟩ :=
      List.exists_mem_of_ne_nil _
        (reached_ne_nil op (ne_nil_of_accepts accepts))
    obtain ⟨p, hp⟩ := List.exists_mem_of_ne_nil _
      (ih part (reached_subset op operands hpart))
    rw [predicates_applied]
    exact List.ne_nil_of_mem (List.mem_flatMap.2 ⟨part, hpart, hp⟩)

/-- A grouping has the deciding outcome if one of its predicates has it. -/
theorem satisfied_eq_iff (hdecided : family.decidedBy = some wanted)
    (h : Grouped family r) :
    r.satisfied = wanted ↔ ∃ p ∈ r.predicates, p.satisfied = wanted := by
  induction h with
  | atomic place satisfied declares => simp [predicates_atomic]
  | @applied place op operands statement style member accepts parts ih =>
    have hop : op.family.decidedBy = some wanted := by rw [member, hdecided]
    have hpart {part : Result τ} (hpart : part ∈ reached op operands) :=
      ih part (reached_subset op operands hpart)
    rw [applied_satisfied, ← op.holds_upTo, ← reached_map_satisfied,
      Operator.holds_eq_iff hop, List.mem_map, predicates_applied]
    simp only [List.mem_flatMap]
    constructor
    · rintro ⟨part, hmem, hsatisfied⟩
      obtain ⟨p, hp, hwanted⟩ := (hpart hmem).1 hsatisfied
      exact ⟨p, ⟨part, hmem, hp⟩, hwanted⟩
    · rintro ⟨p, ⟨part, hmem, hp⟩, hwanted⟩
      exact ⟨part, hmem, (hpart hmem).2 ⟨p, hp, hwanted⟩⟩

end Grouped

/-! ## Evidence -/

/-- The predicates that explain a grouping: those with the deciding outcome
if it has this outcome itself, or all of them. -/
def evidence (wanted : Bool) (r : Result τ) : List (Result τ) :=
  if r.satisfied = wanted then
    r.predicates.filter fun p => p.satisfied = wanted
  else r.predicates

theorem evidence_subset (wanted : Bool) (r : Result τ) :
    r.evidence wanted ⊆ r.predicates := by
  rw [evidence]
  split
  · exact List.filter_subset_self ..
  · exact List.Subset.refl _

theorem evidence_atomic (wanted : Bool) (place : Place)
    (satisfied : Bool) (declaration : Declaration τ) :
    (atomic place satisfied declaration).evidence wanted =
      [atomic place satisfied declaration] := by
  rw [evidence, predicates_atomic]
  split
  · rename_i hsatisfied
    rw [List.filter_singleton]
    simp [hsatisfied]
  · rfl

theorem causesAmong_sublist {op : Operator} {wanted : Bool}
    (h : op.family.decidedBy = some wanted) (rs : List (Result τ)) :
    (causesAmong op rs).Sublist rs := by
  rw [causesAmong_of_decidedBy h]
  split
  · exact List.filter_sublist
  · exact List.Sublist.refl _

namespace Grouped

variable {family : Family} {wanted : Bool} {r : Result τ}

theorem evidence_ne_nil (hdecided : family.decidedBy = some wanted)
    (h : Grouped family r) : r.evidence wanted ≠ [] := by
  rw [evidence]
  split
  · rename_i hsatisfied
    obtain ⟨p, hp, hwanted⟩ := (h.satisfied_eq_iff hdecided).1 hsatisfied
    exact List.ne_nil_of_mem (List.mem_filter.2 ⟨hp, by simpa using hwanted⟩)
  · exact h.predicates_ne_nil

/-- Of several groupings, those with the deciding outcome explain all
predicates that have it. -/
theorem filter_flatMap_predicates (hdecided : family.decidedBy = some wanted)
    {parts : List (Result τ)} (h : ∀ part ∈ parts, Grouped family part) :
    ((parts.flatMap predicates).filter fun p => p.satisfied = wanted) =
      (parts.filter fun part => part.satisfied = wanted).flatMap
        (evidence wanted) := by
  induction parts with
  | nil => rfl
  | cons part rest ih =>
    obtain ⟨hpart, hrest⟩ := List.forall_mem_cons.1 h
    rw [List.flatMap_cons, List.filter_append, ih hrest, List.filter_cons]
    by_cases hsatisfied : part.satisfied = wanted
    · rw [if_pos (by simpa using hsatisfied), List.flatMap_cons, evidence,
        if_pos hsatisfied]
    · rw [if_neg (by simpa using hsatisfied)]
      have hnone : (part.predicates.filter fun p => p.satisfied = wanted) =
          [] := by
        rw [List.filter_eq_nil_iff]
        intro p hp hwanted
        apply hsatisfied
        exact (hpart.satisfied_eq_iff hdecided).2
          ⟨p, hp, by simpa using hwanted⟩
      rw [hnone, List.nil_append]

/-- The predicates that explain a grouping explain its causes. -/
theorem evidence_applied (hdecided : family.decidedBy = some wanted)
    {op : Operator} {operands : List (Result τ)} (member : op.family = family)
    (parts : ∀ part ∈ operands, Grouped family part) (place : Place)
    (statement : String) (style : Notation) :
    (Result.applied place op operands statement style).evidence wanted =
      (causesAmong op (reached op operands)).flatMap (evidence wanted) := by
  have hop : op.family.decidedBy = some wanted := by rw [member, hdecided]
  have hparts : ∀ part ∈ reached op operands, Grouped family part :=
    fun part hpart => parts part (reached_subset op operands hpart)
  rw [evidence, applied_satisfied, predicates_applied, ← op.holds_upTo,
    ← reached_map_satisfied, causesAmong_of_decidedBy hop]
  by_cases hholds : op.holds ((reached op operands).map satisfied) = wanted
  · rw [if_pos hholds, if_pos hholds]
    exact filter_flatMap_predicates hdecided hparts
  · rw [if_neg hholds, if_neg hholds]
    refine List.flatMap_congr fun part hpart => ?_
    have hother : part.satisfied ≠ wanted :=
      Operator.ne_of_holds_ne hop hholds (List.mem_map_of_mem hpart)
    rw [evidence, if_neg hother]

/-- Where no predicate occurs twice, no cause does. -/
theorem nodup_causes (hdecided : family.decidedBy = some wanted)
    (h : Grouped family r) (hnodup : r.predicates.Nodup) :
    r.causes.Nodup ∧ ∀ cause ∈ r.causes, (predicates cause).Nodup := by
  cases h with
  | atomic place satisfied declares =>
    exact ⟨List.nodup_nil, fun cause hcause => nomatch hcause⟩
  | @applied place op operands statement style member accepts parts =>
    rw [predicates_applied] at hnodup
    obtain ⟨hparts, hapart⟩ := List.nodup_flatMap.1 hnodup
    have hreached : (reached op operands).Nodup := by
      refine hapart.imp_of_mem fun {part other} hpart _ hdisjoint => ?_
      rintro rfl
      have hmem := reached_subset op operands hpart
      obtain ⟨p, hp⟩ :=
        List.exists_mem_of_ne_nil _ (predicates_ne_nil (parts part hmem))
      exact hdisjoint hp hp
    have hsublist := causesAmong_sublist (by rw [member, hdecided])
      (reached op operands)
    rw [applied_causes]
    exact ⟨hreached.sublist hsublist, fun cause hcause =>
      hparts cause (hsublist.subset hcause)⟩

end Grouped

/-- What is printed of a predicate. -/
def line (p : Result τ) : View := .lines p.label.assertions []

variable [DecidableEq τ]

theorem view_atomic (place : Place) (satisfied : Bool)
    {declaration : Declaration τ} (declares : declaration.assertions ≠ []) :
    view (atomic place satisfied declaration) =
      some (line (atomic place satisfied declaration)) :=
  view_of_declares (.atomic ..) declares

theorem items_eq_of_family {op inner : Operator}
    (h : op.family = inner.family) (r : Result τ) :
    items op r = items inner r :=
  List.flatMap_congr fun item _ => View.itemsUnder_eq_of_family h item

namespace Grouped

variable {family : Family} {wanted : Bool} {r : Result τ}

theorem view_of_mem_predicates (h : Grouped family r) {p : Result τ}
    (hp : p ∈ r.predicates) : view p = some p.line := by
  induction h with
  | atomic place satisfied declares =>
    rw [predicates_atomic, List.mem_singleton] at hp
    rw [hp]
    exact view_atomic place satisfied declares
  | applied place statement style member accepts parts ih =>
    rw [predicates_applied] at hp
    obtain ⟨part, hpart, hp⟩ := List.mem_flatMap.1 hp
    exact ih part (reached_subset _ _ hpart) hp

/-- A grouping brings into a block of its family one line for each predicate
that explains it. -/
theorem items_eq (hdecided : family.decidedBy = some wanted)
    (h : Grouped family r) (hnodup : r.predicates.Nodup) {op : Operator}
    (hop : op.family = family) :
    items op r = (r.evidence wanted).map line := by
  induction h with
  | atomic place satisfied declares =>
    rw [evidence_atomic, items, view_atomic place satisfied declares]
    rfl
  | @applied place inner operands statement style member accepts parts ih =>
    have hself : inner.collapsesWith inner :=
      Operator.collapsesWith_self (by rw [member, hdecided])
    obtain ⟨hcauses, hbelow⟩ := nodup_causes hdecided
      (.applied place statement style member accepts parts) hnodup
    rw [items_eq_of_family (hop.trans member.symm),
      items_of_chain hself (by rw [applied_label]) hcauses,
      evidence_applied hdecided member parts, ← applied_causes place,
      List.map_flatMap]
    refine List.flatMap_congr fun cause hcause => ?_
    rw [items_eq_of_family (member.trans hop.symm)]
    exact ih cause (mem_of_mem_causes_applied hcause) (hbelow cause hcause)

/-- The view of a grouping holds one line for each predicate that explains
it. -/
theorem view_eq (hdecided : family.decidedBy = some wanted)
    (h : Grouped family r) (hnodup : r.predicates.Nodup) {op : Operator}
    (hop : op.family = family)
    (hkind : r.label.kind = .atomic ∨ r.label.kind = .applied op) :
    view r =
      View.assemble (.block false op) ((r.evidence wanted).map line) := by
  have hself : op.collapsesWith op :=
    Operator.collapsesWith_self (by rw [hop, hdecided])
  rw [← h.items_eq hdecided hnodup hop]
  rcases hkind with hkind | hkind
  · cases h with
    | atomic place satisfied declares =>
      rw [items, view_atomic place satisfied declares]
      rfl
    | applied place statement style member accepts parts =>
      rw [applied_label] at hkind
      cases hkind
  · exact view_of_chain hself hkind (h.nodup_causes hdecided hnodup).1

end Grouped

/-! ## Rendering -/

/-- Predicates on one line.  Each of several ones comes in brackets if it
has several assertions. -/
def flatReason (style : Notation) (op : Operator) :
    List (Result τ) → String
  | [p] => p.reason style
  | ps =>
    (" " ++ op.reasonSymbol ++ " ").intercalate (ps.map fun p =>
      View.bracketedIf (1 < p.label.assertions.length) (p.reason style))

/-- Predicates below each other.  Several ones come below a header, one level
deeper. -/
def flatOutline (notSymbol : String) (op : Operator) :
    List (Result τ) → List OutlineLine
  | [p] => p.outline notSymbol
  | ps =>
    ⟨0, op.keyword⟩ :: ps.flatMap fun p =>
      (p.outline notSymbol).map fun line =>
        { line with depth := line.depth + 1 }

/-- A block of predicates is printed as a flat list of them. -/
theorem flat_of_view {r : Result τ} {op : Operator} {ps : List (Result τ)}
    (hps : ∀ p ∈ ps, view p = some p.line) (hne : ps ≠ [])
    (hview : view r = View.assemble (.block false op) (ps.map line)) :
    (∀ style, r.reason style = flatReason style op ps) ∧
    ∀ notSymbol, r.outline notSymbol = flatOutline notSymbol op ps := by
  match ps with
  | [] => exact absurd rfl hne
  | [p] =>
    have hsame : view r = view p := by
      rw [hview, hps p (List.mem_singleton_self p)]
      rfl
    refine ⟨fun style => ?_, fun notSymbol => ?_⟩
    · rw [flatReason, reason, reason, hsame]
    · rw [flatOutline, outline, outline, hsame]
  | p :: q :: rest =>
    rw [View.assemble_of_several (by simp)] at hview
    refine ⟨fun style => ?_, fun notSymbol => ?_⟩
    · have hitems : View.itemReasons style (some op)
          ((p :: q :: rest).map line) =
          (p :: q :: rest).map fun p =>
            View.bracketedIf (1 < p.label.assertions.length)
              (p.reason style) := by
        rw [View.itemReasons_eq, List.map_map]
        refine List.map_congr_left fun p hp => ?_
        rw [reason, hps p hp]
        rfl
      rw [reason, hview, flatReason, ← hitems]
      · rfl
      · simp
    · have hitems : View.outlineAll notSymbol 1 ((p :: q :: rest).map line) =
          (p :: q :: rest).flatMap fun p =>
            (p.outline notSymbol).map fun line =>
              { line with depth := line.depth + 1 } := by
        rw [View.outlineAll_eq, List.flatMap_map]
        refine List.flatMap_congr fun p hp => ?_
        rw [outline, hps p hp]
        simp [line, View.outline, View.outlineAll]
      rw [outline, hview, flatOutline, ← hitems]
      · rfl
      · simp

end Result

end Rationale
