import Rationale.Proofs.Made
import Rationale.Proofs.Repeats
import Rationale.Proofs.View

/-!
# Reading views

What can be read off a view item by item can be read off the causes of a
result, each of them once.  There are four groups.

* Induction.  `View.induction_items` proves something of a view from its
  items.
* Readings.  `View.Flat` says that a reading goes through blocks and groups
  item by item.  Such a reading does not see that a block was flipped, that
  it was assembled or that it gave up its items to another one.
* Assertions.  `View.texts` reads all assertions, and `View.outermost`
  those that stand below no other ones.
* Results.  `view_of_declares` and `read_of_silent` say what the view of a
  result that can be made holds: its own assertions if it has some, and
  what its causes bring if it has none.
-/

namespace Rationale

namespace View

/-! ## Induction -/

theorem sizeOf_lt_of_mem {items : List View} {item : View}
    (h : item ∈ items) :
    (∀ assertions, sizeOf item < sizeOf (lines assertions items)) ∧
      (∀ negated op, sizeOf item < sizeOf (block negated op items)) ∧
      sizeOf item < sizeOf (group items) := by
  have hlt := List.sizeOf_lt_of_mem h
  refine ⟨fun assertions => ?_, fun negated op => ?_, ?_⟩
  · rw [lines.sizeOf_spec]
    omega
  · rw [block.sizeOf_spec]
    omega
  · rw [group.sizeOf_spec]
    omega

/-- To prove something of a view, prove it from its items. -/
theorem induction_items {motive : View → Prop}
    (lines : ∀ assertions children, (∀ child ∈ children, motive child) →
      motive (lines assertions children))
    (block : ∀ negated op items, (∀ item ∈ items, motive item) →
      motive (block negated op items))
    (group : ∀ items, (∀ item ∈ items, motive item) → motive (group items)) :
    (view : View) → motive view
  | .lines assertions children =>
    lines assertions children fun child hchild =>
      have := (sizeOf_lt_of_mem hchild).1 assertions
      induction_items lines block group child
  | .block negated op items =>
    block negated op items fun item hitem =>
      have := (sizeOf_lt_of_mem hitem).2.1 negated op
      induction_items lines block group item
  | .group items =>
    group items fun item hitem =>
      have := (sizeOf_lt_of_mem hitem).2.2
      induction_items lines block group item
termination_by view => sizeOf view

/-! ## Readings -/

/-- Whether a reading goes through blocks and groups item by item. -/
structure Flat {α : Type} (read : View → List α) : Prop where
  block : ∀ negated op items, read (.block negated op items) = items.flatMap read
  group : ∀ items, read (.group items) = items.flatMap read

namespace Flat

variable {α : Type} {read : View → List α}

theorem flip (h : Flat read) (view : View) : read view.flip = read view := by
  cases view with
  | lines assertions children => rfl
  | block negated op items => rw [View.flip, h.block, h.block]
  | group items => rfl

/-- Items are read the same before and after they are joined. -/
theorem assemble {wrap : List View → View} {items : List View}
    (hwrap : read (wrap items) = items.flatMap read) :
    (assemble wrap items).toList.flatMap read = items.flatMap read := by
  match items with
  | [] => rfl
  | [item] => rfl
  | item :: other :: rest =>
    rw [← hwrap]
    exact List.flatMap_singleton ..

/-- What a view brings into a block is read off the view. -/
theorem itemsUnder (h : Flat read) (op : Operator) (view : View) :
    (itemsUnder op view).flatMap read = read view := by
  cases view with
  | lines assertions children => exact List.flatMap_singleton ..
  | group items => exact List.flatMap_singleton ..
  | block negated inner items =>
    cases negated with
    | true => exact List.flatMap_singleton ..
    | false =>
      rw [View.itemsUnder]
      split
      · exact (h.block ..).symm
      · exact List.flatMap_singleton ..

end Flat

/-! ## Assertions -/

mutual

/-- Every assertion of a view, from top to bottom. -/
def texts : View → List String
  | .lines assertions children => assertions ++ textsAll children
  | .block _ _ items => textsAll items
  | .group items => textsAll items

/-- Every assertion of several views. -/
def textsAll : List View → List String
  | [] => []
  | item :: items => texts item ++ textsAll items

end

theorem textsAll_eq (items : List View) :
    textsAll items = items.flatMap texts := by
  induction items with
  | nil => rfl
  | cons item rest ih => rw [textsAll, ih, List.flatMap_cons]

theorem flat_texts : Flat texts :=
  ⟨fun _ _ items => textsAll_eq items, fun items => textsAll_eq items⟩

mutual

/-- The assertions of a view that stand below no other ones, from left to
right. -/
def outermost : View → List String
  | .lines assertions _ => assertions
  | .block _ _ items => outermostAll items
  | .group items => outermostAll items

/-- The outermost assertions of several views. -/
def outermostAll : List View → List String
  | [] => []
  | item :: items => outermost item ++ outermostAll items

end

theorem outermostAll_eq (items : List View) :
    outermostAll items = items.flatMap outermost := by
  induction items with
  | nil => rfl
  | cons item rest ih => rw [outermostAll, ih, List.flatMap_cons]

theorem flat_outermost : Flat outermost :=
  ⟨fun _ _ items => outermostAll_eq items, fun items => outermostAll_eq items⟩

end View

/-! ## Results -/

namespace Result

variable {τ α : Type} [DecidableEq τ]

/-- What is read off the view of a result, or nothing if it has none. -/
def read (f : View → List α) (r : Result τ) : List α :=
  (view r).toList.flatMap f

/-- The views of several results are those of each of them, once. -/
theorem views_eq (rs : List (Result τ)) :
    views [] rs = rs.eraseDups.flatMap fun r => (view r).toList :=
  flatMap_of_seen (g := views) (fun _ => rfl) (fun _ _ _ => rfl) rs

theorem views_flatMap (f : View → List α) (rs : List (Result τ)) :
    (views [] rs).flatMap f = rs.eraseDups.flatMap (read f) := by
  rw [views_eq, List.flatMap_assoc]
  rfl

/-- A result with assertions states them, above its causes. -/
theorem view_of_declares {r : Result τ} (h : Made r)
    (hdeclares : r.label.assertions ≠ []) :
    view r = some (.lines r.label.assertions (views [] r.causes)) := by
  cases h.shape with
  | atomic place satisfied declaration =>
    have hdeclares : declaration.assertions ≠ [] := hdeclares
    have hsome : ¬declaration.assertions.isEmpty := by simpa using hdeclares
    rw [atomic, view]
    simp only [hsome, Bool.false_eq_true, if_false]
    rfl
  | @declared place finding underlying causes kind parts =>
    have hdeclares : finding.assertions ≠ [] := hdeclares
    have hsome : ¬finding.assertions.isEmpty := by simpa using hdeclares
    rw [ofPositions, view]
    simp only [kind, hsome, Bool.false_eq_true, if_false]
    rfl
  | applied place statement style accepts parts =>
    rw [applied_label] at hdeclares
    exact absurd rfl hdeclares

omit [DecidableEq τ] in
/-- The only operand of a negation is its cause. -/
theorem applied_not_causes (place : Place) (r : Result τ) (statement : String)
    (style : Notation) :
    (applied place .not [r] statement style).causes = [r] := by
  rw [applied_causes]
  rfl

/-- A negation flips the view of its operand. -/
theorem view_applied_not (place : Place) (r : Result τ) (statement : String)
    (style : Notation) :
    view (applied place .not [r] statement style) =
      (view r).map View.flip := by
  rw [applied_eq, view]
  rfl

/-- A result without assertions reads as its causes do, each of them
once. -/
theorem read_of_silent {f : View → List α} (hf : View.Flat f) {r : Result τ}
    (h : Made r) (hsilent : r.label.assertions = []) :
    read f r = r.causes.eraseDups.flatMap (read f) := by
  cases h.shape with
  | atomic place satisfied declaration =>
    have hsilent : declaration.assertions = [] := hsilent
    have hnone : declaration.assertions.isEmpty := by simpa using hsilent
    rw [read, atomic, view]
    simp only [hnone, if_true]
    rfl
  | @declared place finding underlying causes kind parts =>
    have hsilent : finding.assertions = [] := hsilent
    have hnone : finding.assertions.isEmpty := by simpa using hsilent
    rw [← views_flatMap, read, ofPositions, view]
    simp only [kind, hnone, if_true]
    exact View.Flat.assemble (hf.group _)
  | @applied place op operands statement style accepts parts =>
    by_cases hop : op = .not
    · subst hop
      obtain ⟨operand, rfl⟩ := exists_of_accepts_not accepts
      have honce : [operand].eraseDups.flatMap (read f) = read f operand := by
        simp [List.eraseDups_cons]
      rw [applied_not_causes, honce, read, read, view_applied_not]
      cases view operand with
      | none => rfl
      | some inner => simp [hf.flip]
    · rw [← views_flatMap, read, view_applied hop (by rw [applied_label]),
        View.Flat.assemble (hf.block ..), List.flatMap_assoc]
      simp only [hf.itemsUnder]

end Result

end Rationale
