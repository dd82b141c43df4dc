import Mathlib.Data.List.Basic
import Rationale.Proofs.Node
import Rationale.View

/-!
# Views in normal form

A block holds no block that would merge into it, so it does not matter
whether a chain is one node or a node over chains.  There are three groups.

* Items.  `View.itemsUnder` is what a view brings into a block, and
  `itemsUnder_assemble` says that a block that was assembled brings its
  items back.
* Normal views.  `View.Normal` says that a view and all its parts are in
  normal form, and `normal_of_view` that every view is.  It goes by
  `induction_view`, which proves something of every view.
* Chains.  `Result.items` is what a result brings into a block.  By
  `items_of_chain`, a chain brings what its causes bring.
-/

namespace Rationale

namespace View

/-! ## Items -/

theorem family_eq_of_collapses {op inner : Operator}
    (h : op.collapsesWith inner) : op.family = inner.family := by
  revert h
  cases op <;> cases inner <;> decide

theorem collapsesWith_eq_of_family {op inner : Operator}
    (h : op.family = inner.family) :
    op.collapsesWith = inner.collapsesWith := by
  funext other
  rw [Operator.collapsesWith, Operator.collapsesWith, h]

/-- What a view brings into a block depends on the family of the block. -/
theorem itemsUnder_eq_of_family {op inner : Operator}
    (h : op.family = inner.family) (view : View) :
    itemsUnder op view = itemsUnder inner view := by
  cases view with
  | lines assertions children => rfl
  | group items => rfl
  | block negated other items =>
    cases negated with
    | true => rfl
    | false => rw [itemsUnder, itemsUnder, collapsesWith_eq_of_family h]

/-- A block that was assembled from items brings them back. -/
theorem itemsUnder_assemble {op : Operator} (hop : op.collapsesWith op)
    {items : List View} (h : ∀ item ∈ items, itemsUnder op item = [item]) :
    (assemble (.block false op) items).toList.flatMap (itemsUnder op) =
      items := by
  match items with
  | [] => rfl
  | [item] =>
    have hitem := h item (List.mem_cons_self ..)
    simp [assemble, hitem]
  | item :: other :: rest => simp [assemble, itemsUnder, hop]

/-! ## Normal views -/

/-- Whether a view and all its parts are in normal form: something is stated,
items are several, and no item would merge into the block that holds it. -/
inductive Normal : View → Prop where
  | lines {assertions : List String} {children : List View}
      (stated : assertions ≠ []) (normal : ∀ child ∈ children, Normal child) :
      Normal (.lines assertions children)
  | group {items : List View} (several : 2 ≤ items.length)
      (normal : ∀ item ∈ items, Normal item) : Normal (.group items)
  | block {negated : Bool} {op : Operator} {items : List View}
      (proper : op ≠ .not) (several : 2 ≤ items.length)
      (normal : ∀ item ∈ items, Normal item)
      (flat : ∀ item ∈ items, itemsUnder op item = [item]) :
      Normal (.block negated op items)

theorem Normal.flip {view : View} (h : view.Normal) : view.flip.Normal := by
  cases h with
  | lines stated normal => exact .lines stated normal
  | group several normal => exact .group several normal
  | block proper several normal flat =>
    exact .block proper several normal flat

/-- What a normal view brings into a block is normal and stays apart in
it. -/
theorem Normal.of_mem_itemsUnder {op : Operator} {view item : View}
    (h : view.Normal) (hitem : item ∈ itemsUnder op view) :
    item.Normal ∧ itemsUnder op item = [item] := by
  cases h with
  | lines stated normal =>
    rw [List.mem_singleton.1 hitem]
    exact ⟨.lines stated normal, rfl⟩
  | group several normal =>
    rw [List.mem_singleton.1 hitem]
    exact ⟨.group several normal, rfl⟩
  | @block negated inner items proper several normal flat =>
    have hwhole : Normal (.block negated inner items) :=
      .block proper several normal flat
    cases negated with
    | true =>
      rw [List.mem_singleton.1 hitem]
      exact ⟨hwhole, rfl⟩
    | false =>
      rw [itemsUnder] at hitem
      split at hitem
      · rename_i hcollapses
        have hfamily := family_eq_of_collapses hcollapses
        refine ⟨normal item hitem, ?_⟩
        rw [itemsUnder_eq_of_family hfamily]
        exact flat item hitem
      · rename_i hapart
        rw [List.mem_singleton.1 hitem]
        exact ⟨hwhole, by rw [itemsUnder, if_neg hapart]⟩

/-- What holds of each item and of what they are wrapped up in holds of
the view that was assembled. -/
theorem of_assemble {motive : View → Prop} {wrap : List View → View}
    {items : List View} {view : View}
    (hwrap : 2 ≤ items.length → motive (wrap items))
    (hitems : ∀ item ∈ items, motive item)
    (h : assemble wrap items = some view) : motive view := by
  match items with
  | [] => cases h
  | [item] =>
    obtain rfl := Option.some.inj h
    exact hitems item (List.mem_cons_self ..)
  | item :: other :: rest =>
    obtain rfl := Option.some.inj h
    exact hwrap (by simp)

end View

namespace Result

variable {τ : Type} [DecidableEq τ]

theorem exists_of_mem_views {seen rs : List (Result τ)} {item : View}
    (h : item ∈ views seen rs) : ∃ r ∈ rs, view r = some item := by
  induction rs generalizing seen with
  | nil => cases h
  | cons r rest ih =>
    have htail {seen : List (Result τ)} (h : item ∈ views seen rest) :
        ∃ other ∈ r :: rest, view other = some item := by
      obtain ⟨other, hother, hview⟩ := ih h
      exact ⟨other, List.mem_cons_of_mem _ hother, hview⟩
    rw [views] at h
    split at h
    · exact htail h
    · rcases List.mem_append.1 h with h | h
      · exact ⟨r, List.mem_cons_self .., by simpa using h⟩
      · exact htail h

/-- The view of an operator that is no negation. -/
theorem view_applied {r : Result τ} {op : Operator} (hop : op ≠ .not)
    (hkind : r.label.kind = .applied op) :
    view r = View.assemble (.block false op)
      ((views [] r.causes).flatMap (View.itemsUnder op)) := by
  obtain ⟨place, finding, operands, causes⟩ := r
  have hkind : finding.kind = .applied op := hkind
  rw [view, hkind]
  cases op with
  | not => exact absurd rfl hop
  | and | or | xor | andAlso | orElse => rfl

/-- To prove something of every view, prove it of what is made of views
that have it.  Something is stated, and where items are wrapped up, there
are several of them. -/
theorem induction_view {motive : View → Prop}
    (lines : ∀ {assertions children}, assertions ≠ [] →
      (∀ child ∈ children, motive child) →
      motive (.lines assertions children))
    (group : ∀ {items}, 2 ≤ items.length → (∀ item ∈ items, motive item) →
      motive (.group items))
    (block : ∀ {op items}, op ≠ .not → 2 ≤ items.length →
      (∀ item ∈ items, ∃ outer, motive outer ∧
        item ∈ View.itemsUnder op outer) → motive (.block false op items))
    (item : ∀ {op outer item}, motive outer →
      item ∈ View.itemsUnder op outer → motive item)
    (flip : ∀ {outer}, motive outer → motive outer.flip)
    {r : Result τ} {shown : View} (h : view r = some shown) :
    motive shown := by
  induction r using Node.induction_below generalizing shown with
  | h r ih =>
    have hviews : ∀ item ∈ views [] r.causes, motive item := by
      intro item hitem
      obtain ⟨cause, hcause, hview⟩ := exists_of_mem_views hitem
      exact ih .causes cause hcause hview
    have hblock {op : Operator} (hop : op ≠ .not)
        (hkind : r.label.kind = .applied op) : motive shown := by
      have hitems : ∀ item ∈ (views [] r.causes).flatMap
          (View.itemsUnder op), ∃ outer, motive outer ∧
            item ∈ View.itemsUnder op outer := by
        intro item hitem
        obtain ⟨outer, houter, hitem⟩ := List.mem_flatMap.1 hitem
        exact ⟨outer, hviews outer houter, hitem⟩
      rw [view_applied hop hkind] at h
      refine View.of_assemble (block hop · hitems) (fun other hother => ?_) h
      obtain ⟨outer, houter, hother⟩ := hitems other hother
      exact item houter hother
    obtain ⟨place, finding, operands, causes⟩ := r
    have hstates (hsome : ¬finding.assertions.isEmpty) :
        finding.assertions ≠ [] := by simpa using hsome
    cases hkind : finding.kind with
    | atomic =>
      simp only [view, hkind, Option.ite_none_left_eq_some,
        Option.some.injEq] at h
      rw [← h.2]
      exact lines (hstates h.1) (by simp)
    | declared =>
      simp only [view, hkind] at h
      split at h
      · exact View.of_assemble (group · hviews) hviews h
      · rename_i hsome
        rw [← Option.some.inj h]
        exact lines (hstates hsome) hviews
    | applied op =>
      by_cases hop : op = .not
      · subst hop
        simp only [view, hkind] at h
        obtain ⟨inner, hinner, rfl⟩ := Option.map_eq_some_iff.1 h
        cases causes with
        | nil => cases hinner
        | cons cause rest =>
          exact flip (ih .causes cause (List.mem_cons_self ..) hinner)
      · exact hblock hop hkind

/-- Every view is normal. -/
theorem normal_of_view {r : Result τ} {shown : View}
    (h : view r = some shown) : shown.Normal := by
  refine induction_view (motive := View.Normal) .lines .group
    (fun proper several hitems => ?_)
    (fun houter hitem => (houter.of_mem_itemsUnder hitem).1)
    View.Normal.flip h
  refine .block proper several (fun item hitem => ?_) fun item hitem => ?_
  · obtain ⟨outer, houter, hitem⟩ := hitems item hitem
    exact (houter.of_mem_itemsUnder hitem).1
  · obtain ⟨outer, houter, hitem⟩ := hitems item hitem
    exact (houter.of_mem_itemsUnder hitem).2

/-! ## Chains -/

/-- What a result brings into a block of `op`. -/
def items (op : Operator) (r : Result τ) : List View :=
  (view r).toList.flatMap (View.itemsUnder op)

/-- Where no result occurs twice, the views are those of all results. -/
theorem views_of_nodup {rs seen : List (Result τ)} (hnodup : rs.Nodup)
    (hseen : ∀ r ∈ rs, r ∉ seen) :
    views seen rs = rs.flatMap fun r => (view r).toList := by
  induction rs generalizing seen with
  | nil => rfl
  | cons r rest ih =>
    obtain ⟨hr, hrest⟩ := List.nodup_cons.1 hnodup
    rw [views, if_neg (hseen r (List.mem_cons_self ..)), List.flatMap_cons,
      ih hrest]
    intro other hother hmem
    rcases List.mem_cons.1 hmem with rfl | hmem
    · exact hr hother
    · exact hseen other (List.mem_cons_of_mem _ hother) hmem

theorem views_flatMap_itemsUnder {rs : List (Result τ)} (hnodup : rs.Nodup)
    (op : Operator) :
    (views [] rs).flatMap (View.itemsUnder op) = rs.flatMap (items op) := by
  rw [views_of_nodup hnodup fun _ _ => List.not_mem_nil, List.flatMap_assoc]
  rfl

/-- A chain brings into a block of its operator what its causes bring. -/
theorem items_of_chain {r : Result τ} {op : Operator}
    (hop : op.collapsesWith op) (hkind : r.label.kind = .applied op)
    (hnodup : r.causes.Nodup) : items op r = r.causes.flatMap (items op) := by
  have hne : op ≠ .not := by
    rintro rfl
    cases hop
  rw [items, view_applied hne hkind, views_flatMap_itemsUnder hnodup]
  refine View.itemsUnder_assemble hop fun item hitem => ?_
  obtain ⟨cause, -, hitem⟩ := List.mem_flatMap.1 hitem
  obtain ⟨outer, houter, hitem⟩ := List.mem_flatMap.1 hitem
  have hview : view cause = some outer := by simpa using houter
  exact ((normal_of_view hview).of_mem_itemsUnder hitem).2

/-- The view of a chain is made of what it brings into a block. -/
theorem view_of_chain {r : Result τ} {op : Operator}
    (hop : op.collapsesWith op) (hkind : r.label.kind = .applied op)
    (hnodup : r.causes.Nodup) :
    view r = View.assemble (.block false op) (items op r) := by
  have hne : op ≠ .not := by
    rintro rfl
    cases hop
  rw [items_of_chain hop hkind hnodup, view_applied hne hkind,
    views_flatMap_itemsUnder hnodup]

end Result

end Rationale
