import Rationale.Result

/-!
# Views

Reasons and justifications are printed from a view of the result, which
holds the causes only and is in a normal form.

* A node that declares assertions is a `lines` node over the views of its
  causes.
* An operator is a `block` of the views of its causes.  A block of the
  same family in it gives up its items to it.
* A node that declares nothing is a `group` of the views of its causes.
* A block or a group of one item is that item, and one of no item is
  nothing.
* A negation flips the block below it.  A `lines` node already states the
  outcome that was observed, so a negation leaves it alone.

A cause that occurs twice among the causes of one node counts once.
-/

namespace Rationale

/-- What is printed of a result. -/
inductive View where
  /-- The assertions of a node, above the views of its causes. -/
  | lines (assertions : List String) (children : List View)
  /-- The items of an operator. -/
  | block (negated : Bool) (op : Operator) (items : List View)
  /-- Several items of a node that says nothing of its own. -/
  | group (items : List View)

namespace View

/-- The view under a negation. -/
def flip : View → View
  | .block negated op items => .block (!negated) op items
  | .lines assertions children => .lines assertions children
  | .group items => .group items

/-- Joins items into one view: none is nothing, one is itself, and more
are wrapped up. -/
def assemble (wrap : List View → View) : List View → Option View
  | [] => none
  | [item] => some item
  | items => some (wrap items)

/-- The items that a view brings into a block of `op`. -/
def itemsUnder (op : Operator) : View → List View
  | .block false inner items =>
    if op.collapsesWith inner then items else [.block false inner items]
  | item => [item]

end View

namespace Result

variable {τ : Type} [DecidableEq τ]

mutual

/-- The view of a result. -/
def view : Result τ → Option View
  | .mk _ finding _ causes =>
    match finding.kind with
    | .atomic =>
      if finding.assertions.isEmpty then none
      else some (.lines finding.assertions [])
    | .declared =>
      if finding.assertions.isEmpty then
        View.assemble .group (views [] causes)
      else some (.lines finding.assertions (views [] causes))
    | .applied .not => (viewHead causes).map View.flip
    | .applied op =>
      View.assemble (.block false op)
        ((views [] causes).flatMap (View.itemsUnder op))

/-- The view of the first of several results. -/
def viewHead : List (Result τ) → Option View
  | [] => none
  | r :: _ => view r

/-- The views of the results that are not in `seen`, each result once. -/
def views (seen : List (Result τ)) : List (Result τ) → List View
  | [] => []
  | r :: rs =>
    if r ∈ seen then views seen rs
    else (view r).toList ++ views (r :: seen) rs

end

end Result

end Rationale
