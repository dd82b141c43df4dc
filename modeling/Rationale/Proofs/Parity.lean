import Mathlib.Algebra.Ring.Parity
import Rationale.Proofs.Renamed

/-!
# Layers of negations

Negations and forwarding nodes can be put on a result in any order.  All that
shows of them is whether the number of negations is even.  There are two
groups.

* Views under a sign.  `viewUnder` carries down whether it is in a negation,
  and drops that at a node that holds several things or says something of its
  own.  By `viewUnder_eq`, it is the same to build the view first and to negate
  it afterwards.
* Layers.  `Layered` counts the negations in a stack.  A negation turns the
  sign, and a forwarding node keeps it.  `Layered.viewUnder_eq` follows the
  sign down the stack, and `layers_reduce` says what is shown of a result
  below it.
-/

namespace Rationale

/-! ## Views under a sign -/

namespace View

/-- The view under an even or an odd number of negations.  They only mark
blocks. -/
def negate (negated : Bool) : View → View
  | .block inner op items => .block (inner != negated) op items
  | .lines assertions children => .lines assertions children
  | .group items => .group items

theorem negate_false (view : View) : view.negate false = view := by
  cases view with
  | block inner op items => rw [negate, Bool.bne_false]
  | lines assertions children => rfl
  | group items => rfl

theorem negate_negate (outer inner : Bool) (view : View) :
    (view.negate inner).negate outer = view.negate (inner != outer) := by
  cases view with
  | block negated op items => rw [negate, negate, negate, Bool.bne_assoc]
  | lines assertions children => rfl
  | group items => rfl

theorem flip_eq_negate (view : View) : view.flip = view.negate true := by
  cases view with
  | block inner op items => rw [flip, negate, Bool.bne_true]
  | lines assertions children => rfl
  | group items => rfl

/-- Joins items into one view.  A single item is negated by itself. -/
def assembleUnder (negated : Bool) (wrap : List View → View) :
    List View → Option View
  | [] => none
  | [item] => some (item.negate negated)
  | items => some (wrap items)

/-- What is wrapped up is to be negated as well. -/
theorem assembleUnder_eq {negated : Bool} {wrap outer : List View → View}
    (h : ∀ items, outer items = (wrap items).negate negated)
    (items : List View) : assembleUnder negated outer items =
      (assemble wrap items).map (negate negated) := by
  match items with
  | [] => rfl
  | [item] => rfl
  | item :: other :: rest => exact congrArg some (h _)

end View

namespace Result

variable {τ : Type} [DecidableEq τ]

mutual

/-- The view of a result under a sign. -/
def viewUnder (negated : Bool) : Result τ → Option View
  | .mk _ finding _ causes =>
    match finding.kind with
    | .atomic =>
      if finding.assertions.isEmpty then none
      else some (.lines finding.assertions [])
    | .declared =>
      if finding.assertions.isEmpty then
        View.assembleUnder negated .group (viewsUnder [] causes)
      else some (.lines finding.assertions (viewsUnder [] causes))
    | .applied .not => viewHeadUnder (!negated) causes
    | .applied op =>
      View.assembleUnder negated (.block negated op)
        ((viewsUnder [] causes).flatMap (View.itemsUnder op))

/-- The view of the first of several results, under a sign. -/
def viewHeadUnder (negated : Bool) : List (Result τ) → Option View
  | [] => none
  | r :: _ => viewUnder negated r

/-- The views of the results that are not in `seen`, each of them once and
under no negation. -/
def viewsUnder (seen : List (Result τ)) : List (Result τ) → List View
  | [] => []
  | r :: rs =>
    if r ∈ seen then viewsUnder seen rs
    else (viewUnder false r).toList ++ viewsUnder (r :: seen) rs

end

theorem viewsUnder_eq {rs : List (Result τ)}
    (h : ∀ r ∈ rs, viewUnder false r = view r) (seen : List (Result τ)) :
    viewsUnder seen rs = views seen rs := by
  induction rs generalizing seen with
  | nil => rfl
  | cons r rest ih =>
    obtain ⟨hr, hrest⟩ := List.forall_mem_cons.1 h
    rw [viewsUnder, views, hr, ih hrest, ih hrest]

/-- The sign may be carried down, or the view negated when it is built. -/
theorem viewUnder_eq (negated : Bool) (r : Result τ) :
    viewUnder negated r = (view r).map (View.negate negated) := by
  induction r using Node.induction_below generalizing negated with
  | h r ih =>
    obtain ⟨place, finding, operands, causes⟩ := r
    have hviews : viewsUnder [] causes = views [] causes := by
      refine viewsUnder_eq (fun cause hcause => ?_) []
      rw [ih .causes cause hcause, funext View.negate_false, Option.map_id']
    have hblock (op : Operator) :
        View.assembleUnder negated (.block negated op)
            ((views [] causes).flatMap (View.itemsUnder op)) =
          (View.assemble (.block false op)
            ((views [] causes).flatMap (View.itemsUnder op))).map
              (View.negate negated) := by
      refine View.assembleUnder_eq (fun items => ?_) _
      rw [View.negate, Bool.false_bne]
    rw [viewUnder, view]
    cases finding.kind with
    | atomic =>
      dsimp only
      split <;> rfl
    | declared =>
      dsimp only
      rw [hviews]
      split
      · exact @View.assembleUnder_eq negated .group .group (fun _ => rfl) _
      · rfl
    | applied op =>
      cases op with
      | not =>
        -- The flag turns here on the one side, and the view on the other.
        cases causes with
        | nil => rfl
        | cons cause rest =>
          have hcause := ih .causes cause (List.mem_cons_self ..) (!negated)
          dsimp only
          rw [viewHeadUnder, viewHead, hcause, Option.map_map]
          congr 1
          funext item
          rw [Function.comp_apply, View.flip_eq_negate, View.negate_negate,
            Bool.true_bne]
      | and | or | xor | andAlso | orElse =>
        dsimp only
        rw [hviews, hblock]

theorem view_eq_viewUnder (r : Result τ) : view r = viewUnder false r := by
  rw [viewUnder_eq, funext View.negate_false, Option.map_id']

/-! ## Layers -/

/-- Whether the second result is the first one under layers, among them so
many negations.  A layer is a negation or a node that declares nothing over
the one cause that it has. -/
inductive Layered (r : Result τ) : Nat → Result τ → Prop where
  | bare : Layered r 0 r
  | negation {count : Nat} {inner : Result τ} (place : Place)
      (h : Layered r count inner) :
      Layered r (count + 1) (negation place inner)
  | forwarding {count : Nat} {inner outer : Result τ} {place : Place}
      {statement : String} {style : Notation} {underlying : List (Result τ)}
      {causes : List Nat} (h : Layered r count inner)
      (made : declared place inner.satisfied (.forwarding statement style)
        underlying causes = .ok outer)
      (only : outer.causes.eraseDups = [inner]) : Layered r count outer

theorem viewUnder_negation (negated : Bool) (place : Place) (r : Result τ) :
    viewUnder negated (negation place r) = viewUnder (!negated) r := rfl

/-- What forwards one result is shown as the result is, under either sign. -/
theorem viewUnder_of_only {inner outer : Result τ}
    (hkind : outer.label.kind = .declared)
    (hsilent : outer.label.assertions = [])
    (only : outer.causes.eraseDups = [inner]) (negated : Bool) :
    viewUnder negated outer = viewUnder negated inner := by
  rw [viewUnder_eq, viewUnder_eq, view_of_only hkind hsilent only]

namespace Layered

variable {r top : Result τ} {count : Nat}

/-- The sign below a stack is turned once for each negation. -/
theorem viewUnder_eq (h : Layered r count top) (negated : Bool) :
    viewUnder negated top = viewUnder (negated != decide (Odd count)) r := by
  induction h generalizing negated with
  | bare => rw [decide_eq_false Nat.not_odd_zero, Bool.bne_false]
  | @negation count inner place h ih =>
    rw [viewUnder_negation, ih]
    simp only [Nat.odd_add_one, decide_not, Bool.not_bne, Bool.bne_not]
  | forwarding h made only ih =>
    obtain ⟨-, hmade⟩ := declared_eq_ok_iff.1 made
    rw [viewUnder_of_only (by rw [← hmade]; rfl) (by rw [← hmade]; rfl) only,
      ih]

/-- A tier of declarations is the same through all layers. -/
theorem values_eq {V : Type} {own : Finding τ → List V}
    (hown : Declared own) (h : Layered r count top) :
    Node.values own top = Node.values own r := by
  induction h with
  | bare => rfl
  | negation place h ih => exact (values_of_only (hown _ rfl rfl) rfl).trans ih
  | forwarding h made only ih =>
    obtain ⟨-, hmade⟩ := declared_eq_ok_iff.1 made
    refine (values_of_only ?_ only).trans ih
    rw [← hmade]
    exact hown _ rfl rfl

theorem satisfied_eq (h : Layered r count top) :
    top.satisfied = Bool.not^[count] r.satisfied := by
  induction h with
  | bare => rfl
  | @negation count inner place h ih =>
    have hnot : (Result.negation place inner).satisfied = !inner.satisfied :=
      rfl
    rw [hnot, ih, Function.iterate_succ_apply']
  | forwarding h made only ih =>
    obtain ⟨-, hmade⟩ := declared_eq_ok_iff.1 made
    rw [← ih, ← hmade]
    rfl

end Layered

/-- Under layers, in any order, the outcome is flipped once for each negation,
and the tiers stay.  Under an even number of negations a result explains itself
as it does without them, and under an odd number as one negation of it does, in
each notation. -/
theorem layers_reduce {r top : Result τ} {count : Nat}
    (h : Layered r count top) :
    top.satisfied = Bool.not^[count] r.satisfied ∧
      top.assertions = r.assertions ∧ top.metadata = r.metadata ∧
      (Even count → top.ExplainsSame r) ∧
      (Odd count → ∀ place, top.ExplainsSame (negation place r)) := by
  have hassertions : Node.values (fun finding : Finding τ => finding.assertions)
      top = Node.values (fun finding => finding.assertions) r :=
    h.values_eq fun _ _ hnone => hnone
  have hmetadata : top.metadata = r.metadata :=
    h.values_eq fun _ hnone _ => hnone
  have hview : view top = viewUnder (decide (Odd count)) r := by
    rw [view_eq_viewUnder, h.viewUnder_eq, Bool.false_bne]
  refine ⟨h.satisfied_eq, ?_, hmetadata, fun heven => ?_, fun hodd place => ?_⟩
  · rw [Result.assertions, Result.assertions, hassertions]
  · refine explainsSame_of_view ?_ ?_ hassertions hmetadata
    · rw [h.satisfied_eq, Bool.involutive_not.iterate_even heven, id]
    · rw [hview, decide_eq_false (Nat.not_odd_iff_even.2 heven),
        view_eq_viewUnder]
  · refine explainsSame_of_view ?_ ?_ ?_ ?_
    · rw [h.satisfied_eq, Bool.involutive_not.iterate_odd hodd]
      rfl
    · rw [hview, decide_eq_true hodd, view_eq_viewUnder, viewUnder_negation,
        Bool.not_false]
    · exact hassertions.trans (values_of_only rfl rfl).symm
    · exact hmetadata.trans (values_of_only rfl rfl).symm

/-- The door is not open, or the light is not on. -/
def notBoth : Result String :=
  negation (.root 3) (combine (.root 2) .and
    (atomic (.root 0) true (.fallback "open" {} true))
    (atomic (.root 1) true (.fallback "lit" {} true)))

/-- A negated block is forwarded, and it loses its mark under one more
negation. -/
theorem layers_reduce_notBoth :
    ∃ top, Layered notBoth 1 top ∧ top.satisfied = !notBoth.satisfied ∧
      top.ExplainsSame (negation (.root 6) notBoth) ∧
      notBoth.justification {} = "!AND\n  open\n  lit" ∧
      top.justification {} = "AND\n  open\n  lit" := by
  have hforwards : declared (.root 4) notBoth.satisfied
      (.forwarding "forwarded" {}) [notBoth] [0] =
        .ok (Specification.wrapped (.root 4) notBoth
          (.forwarding "forwarded" {})) :=
    declared_eq_ok (by simp) _ _ _
  have hlayered : Layered notBoth 1 (negation (.root 5)
      (Specification.wrapped (.root 4) notBoth (.forwarding "forwarded" {}))) :=
    .negation _ (.forwarding .bare hforwards rfl)
  obtain ⟨hsatisfied, -, -, -, hodd⟩ := layers_reduce hlayered
  exact ⟨_, hlayered, hsatisfied, hodd odd_one _, by decide, by decide⟩

end Result

end Rationale
