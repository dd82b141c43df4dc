import Rationale.View

/-!
# Reasons

A reason is a view on one line.  The children of a `lines` node are not
part of it.  An item is bracketed where its parts could be taken for
parts of what surrounds it: several assertions, a group of several items,
and a block whose symbol is not the one around it.  A negated block comes
with brackets of its own.
-/

namespace Rationale

namespace View

/-- Whether the reason of an item needs brackets inside a block of
`parent`, or inside a group if there is none. -/
def needsBrackets (parent : Option Operator) : View → Bool
  | .lines assertions _ => 1 < assertions.length
  | .group items => 1 < items.length
  | .block true _ _ => false
  | .block false op _ =>
    match parent with
    | some parent => parent.reasonSymbol ≠ op.reasonSymbol
    | none => true

/-- A text, in brackets if asked for. -/
def bracketedIf (brackets : Bool) (text : String) : String :=
  if brackets then "(" ++ text ++ ")" else text

mutual

/-- The view on one line. -/
def reason (style : Notation) : View → String
  | .lines assertions _ => style.assertionSeparator.intercalate assertions
  | .group items =>
    style.assertionSeparator.intercalate (itemReasons style none items)
  | .block negated op items =>
    let body :=
      (" " ++ op.reasonSymbol ++ " ").intercalate
        (itemReasons style (some op) items)
    if negated then style.notSymbol ++ "(" ++ body ++ ")" else body

/-- The reasons of the items of a block of `parent`, or of a group. -/
def itemReasons (style : Notation) (parent : Option Operator) :
    List View → List String
  | [] => []
  | item :: items =>
    bracketedIf (needsBrackets parent item) (reason style item)
      :: itemReasons style parent items

end

end View

/-- The reason for a result, in a given notation. -/
def Result.reason {τ : Type} [DecidableEq τ] (r : Result τ)
    (style : Notation) : String :=
  match r.view with
  | some view => view.reason style
  | none => ""

end Rationale
