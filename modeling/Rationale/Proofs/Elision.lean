import Rationale.Proofs.Reading
import Rationale.View.Justification
import Rationale.View.Reason

/-!
# Operators with one cause

An operator with one cause prints what the cause prints, and its own keyword
is left out.  There are two groups.

* The heading.  `View.retitle` writes one operator over a block in place of
  another one that merges with it.  It leaves every reason as it is, and of
  a justification it changes the first word.
* Elision.  `view_of_single` says what is left of an operator with one
  cause, and `single_explainsSame` how it is printed.  A block has two items
  at least, so one that merges into another block is never a single item.

A cause that merges gives up its items first, and they are counted after
that.  So a conjunction whose only cause is a short-circuiting conjunction,
or the other way round, prints its own keyword over the items of the cause.
Disjunctions do the same.
-/

namespace Rationale

namespace View

/-! ## The heading -/

/-- The operator over a block that is not negated. -/
def heading : View → Option Operator
  | .block false op _ => some op
  | .block true _ _ | .lines .. | .group _ => none

theorem exists_of_heading {view : View} {op : Operator}
    (h : view.heading = some op) : ∃ items, view = .block false op items := by
  cases view with
  | lines assertions children => cases h
  | group items => cases h
  | block negated inner items =>
    cases negated with
    | true => cases h
    | false =>
      obtain rfl := Option.some.inj h
      exact ⟨items, rfl⟩

/-- The view with `op` over it, if it is a block that merges into one of
`op`. -/
def retitle (op : Operator) : View → View
  | .block false inner items =>
    .block false (if op.collapsesWith inner then op else inner) items
  | view => view

theorem assemble_of_several {wrap : List View → View} {items : List View}
    (h : 2 ≤ items.length) : assemble wrap items = some (wrap items) := by
  cases items with
  | nil => exact absurd h (by simp)
  | cons first rest =>
    cases rest with
    | nil => exact absurd h (by simp)
    | cons second rest => rfl

/-- A view that is alone in a block has the operator of the block over
it. -/
theorem assemble_itemsUnder {view : View} (h : view.Normal) (op : Operator) :
    assemble (.block false op) (itemsUnder op view) =
      some (view.retitle op) := by
  cases h with
  | lines stated normal => rfl
  | group several normal => rfl
  | @block negated inner items proper several normal flat =>
    cases negated with
    | true => rfl
    | false =>
      rw [itemsUnder, retitle]
      split
      · exact assemble_of_several several
      · rfl

theorem retitle_eq_self {op : Operator} {view : View}
    (h : ∀ inner, view.heading = some inner → op.collapsesWith inner →
      inner = op) : view.retitle op = view := by
  cases view with
  | lines assertions children => rfl
  | group items => rfl
  | block negated inner items =>
    cases negated with
    | true => rfl
    | false =>
      rw [retitle]
      split
      · rename_i hcollapses
        rw [h inner rfl hcollapses]
      · rfl

/-- The symbol between two reasons is that of the family. -/
theorem reasonSymbol_eq_of_collapses {op inner : Operator}
    (h : op.collapsesWith inner) : op.reasonSymbol = inner.reasonSymbol := by
  rw [Operator.reasonSymbol, Operator.reasonSymbol,
    family_eq_of_collapses h]

/-- The items of a block see no more of its operator than the symbol. -/
theorem itemReasons_congr (style : Notation) {op inner : Operator}
    (h : op.reasonSymbol = inner.reasonSymbol) (items : List View) :
    itemReasons style (some op) items =
      itemReasons style (some inner) items := by
  have hbrackets (item : View) :
      needsBrackets (some op) item = needsBrackets (some inner) item := by
    cases item with
    | lines assertions children => rfl
    | group items => rfl
    | block negated other items =>
      cases negated with
      | true => rfl
      | false => simp only [needsBrackets, h]
  induction items with
  | nil => rfl
  | cons item rest ih => rw [itemReasons, itemReasons, hbrackets, ih]

/-- No reason tells which operator of the family is meant. -/
theorem reason_retitle (style : Notation) (op : Operator) (view : View) :
    (view.retitle op).reason style = view.reason style := by
  cases view with
  | lines assertions children => rfl
  | group items => rfl
  | block negated inner items =>
    cases negated with
    | true => rfl
    | false =>
      rw [retitle]
      split
      · rename_i hcollapses
        have hsymbol := reasonSymbol_eq_of_collapses hcollapses
        rw [reason, reason, hsymbol, itemReasons_congr style hsymbol]
      · rfl

/-- The lines of a view, printed below each other. -/
def printed (style : Notation) (view : View) : String :=
  "\n".intercalate
    ((view.outline style.notSymbol 0).map (OutlineLine.render style))

theorem exists_intercalate_cons (separator : String) (texts : List String) :
    ∃ rest, ∀ text,
      separator.intercalate (text :: texts) = text ++ rest := by
  cases texts with
  | nil =>
    exact ⟨"", fun text => by
      rw [String.intercalate_singleton, String.append_empty]⟩
  | cons second others =>
    exact ⟨separator ++ separator.intercalate (second :: others), fun text => by
      rw [String.intercalate_cons_cons, String.append_assoc]⟩

theorem pad_zero (style : Notation) : style.pad 0 = "" := by
  rw [Notation.pad, Nat.mul_zero]
  rfl

/-- A block is printed with the keyword of its operator first, and nothing
behind it depends on the operator. -/
theorem exists_printed_block (style : Notation) (items : List View) :
    ∃ rest, ∀ op, printed style (.block false op items) =
      op.keyword ++ rest := by
  obtain ⟨rest, hrest⟩ := exists_intercalate_cons "\n"
    ((outlineAll style.notSymbol 1 items).map (OutlineLine.render style))
  refine ⟨rest, fun op => ?_⟩
  have hhead : OutlineLine.render style
      ⟨0, header style.notSymbol false op⟩ = op.keyword := by
    rw [OutlineLine.render, pad_zero, String.empty_append]
    exact String.empty_append
  rw [printed, outline, List.map_cons, hrest, hhead]

end View

namespace Operator

theorem keyword_injective : Function.Injective keyword := by
  intro op other
  cases op <;> cases other <;> decide

end Operator

/-! ## Elision -/

namespace Result

variable {τ : Type} [DecidableEq τ]

/-- The operator over the justification of a result, if a block is printed
that is not negated. -/
def heading (r : Result τ) : Option Operator := r.view.bind View.heading

/-- The view of an operator with one cause is that of the cause, up to the
operator over it. -/
theorem view_of_single {r c : Result τ} {op : Operator} (hop : op ≠ .not)
    (hkind : r.label.kind = .applied op) (honce : r.causes.eraseDups = [c]) :
    view r = (view c).map (View.retitle op) := by
  have hitems : (views [] r.causes).flatMap (View.itemsUnder op) =
      (view c).toList.flatMap (View.itemsUnder op) := by
    rw [views_flatMap, honce, List.flatMap_singleton, read]
  rw [view_applied hop hkind, hitems]
  cases hview : view c with
  | none => rfl
  | some item =>
    rw [Option.toList_some, List.flatMap_singleton,
      View.assemble_itemsUnder (normal_of_view hview), Option.map_some]

theorem justification_eq (r : Result τ) (style : Notation) :
    r.justification style = (r.view.map (View.printed style)).getD "" := by
  rw [justification, outline]
  cases r.view <;> rfl

theorem reason_eq_getD (r : Result τ) (style : Notation) :
    r.reason style = (r.view.map (View.reason style)).getD "" := by
  rw [reason]
  cases r.view <;> rfl

/-- An operator with one cause that merges into it prints its own keyword
over what the cause prints below its keyword. -/
theorem exists_justification_of_single {r c : Result τ} {op inner : Operator}
    (hop : op ≠ .not) (hkind : r.label.kind = .applied op)
    (honce : r.causes.eraseDups = [c]) (hheading : c.heading = some inner)
    (hcollapses : op.collapsesWith inner) (style : Notation) :
    ∃ rest, c.justification style = inner.keyword ++ rest ∧
      r.justification style = op.keyword ++ rest := by
  obtain ⟨item, hitem, hhead⟩ := Option.bind_eq_some_iff.1 hheading
  obtain ⟨items, rfl⟩ := View.exists_of_heading hhead
  obtain ⟨rest, hrest⟩ := View.exists_printed_block style items
  refine ⟨rest, ?_, ?_⟩
  · rw [justification_eq, hitem]
    exact hrest inner
  · rw [justification_eq, view_of_single hop hkind honce, hitem,
      Option.map_some, View.retitle, if_pos hcollapses]
    exact hrest op

/-- An operator with one cause has the reason of the cause, in each notation.
It has the justification of the cause too, unless the cause prints a block
that merges into it under another keyword.  Then the two differ in this
keyword and in nothing behind it. -/
theorem single_explainsSame {r c : Result τ} {op : Operator} (hop : op ≠ .not)
    (hkind : r.label.kind = .applied op) (honce : r.causes.eraseDups = [c])
    (style : Notation) :
    r.reason style = c.reason style ∧
    (r.justification style = c.justification style ↔
      ∀ inner, c.heading = some inner → op.collapsesWith inner →
        inner = op) ∧
    ∀ inner, c.heading = some inner → op.collapsesWith inner →
      ∃ rest, c.justification style = inner.keyword ++ rest ∧
        r.justification style = op.keyword ++ rest := by
  have hview := view_of_single hop hkind honce
  refine ⟨?_, ⟨fun hsame inner hheading hcollapses => ?_, fun hown => ?_⟩,
    fun inner hheading hcollapses =>
      exists_justification_of_single hop hkind honce hheading hcollapses style⟩
  · rw [reason_eq_getD, reason_eq_getD, hview, Option.map_map]
    congr 2
    exact funext fun item => View.reason_retitle style op item
  · obtain ⟨rest, hc, hr⟩ := exists_justification_of_single hop hkind honce
      hheading hcollapses style
    rw [hc, hr, String.append_left_inj] at hsame
    exact (Operator.keyword_injective hsame).symm
  · have hsame : view r = view c := by
      rw [hview]
      cases hitem : view c with
      | none => rfl
      | some item =>
        rw [Option.map_some, View.retitle_eq_self fun inner hhead => ?_]
        exact hown inner (by rw [heading, hitem]; exact hhead)
    rw [justification_eq, justification_eq, hsame]

/-- The door is not open and the light is not on. -/
def neither : Result String :=
  combine (.root 2) .and (atomic (.root 0) false (.fallback "open" {} false))
    (atomic (.root 1) false (.fallback "lit" {} false))

/-- So it does not matter whether anybody is in. -/
def stopped : Result String :=
  combine (.root 4) .andAlso neither
    (atomic (.root 3) true (.fallback "in" {} true))

/-- The only cause is a conjunction, and its keyword gives way. -/
theorem single_explainsSame_stopped :
    stopped.label.kind = .applied .andAlso ∧
      stopped.causes.eraseDups = [neither] ∧
      stopped.reason {} = neither.reason {} ∧
      ∃ rest, neither.justification {} = "AND" ++ rest ∧
        stopped.justification {} = "AND ALSO" ++ rest := by
  have hkind : stopped.label.kind = .applied .andAlso := rfl
  have honce : stopped.causes.eraseDups = [neither] := by decide
  have hsame := single_explainsSame (by decide) hkind honce {}
  exact ⟨hkind, honce, hsame.1, hsame.2.2 .and (by decide) (by decide)⟩

/-- The two justifications differ. -/
theorem stopped_keepsKeyword :
    Made stopped ∧ stopped.label.kind = .applied .andAlso ∧
      stopped.causes.eraseDups = [neither] ∧
      neither.justification {} = "AND\n  ¬open\n  ¬lit" ∧
      stopped.justification {} = "AND ALSO\n  ¬open\n  ¬lit" ∧
      stopped.justification {} ≠ neither.justification {} := by
  have hneither : Made neither :=
    .combine _ (by decide) (.atomic ..) (.atomic ..)
  exact ⟨.combine _ (by decide) hneither (.atomic ..), rfl, by decide,
    by decide, by decide, by decide⟩

end Result

end Rationale
