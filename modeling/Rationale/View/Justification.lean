import Rationale.View

/-!
# Justifications

A justification is a view on several lines.  It is an outline first, a
list of texts with depths, and the notation then turns each depth into an
indentation.  The outline needs one thing of the notation, the mark of a
negated block.
-/

namespace Rationale

/-- A line before it is indented. -/
structure OutlineLine where
  /-- The nesting level. -/
  depth : Nat
  /-- The text of the line. -/
  text : String
deriving DecidableEq, Repr

/-- The line as it is printed. -/
def OutlineLine.render (style : Notation) (line : OutlineLine) : String :=
  style.pad line.depth ++ line.text

namespace View

/-- The line that heads a block. -/
def header (notSymbol : String) (negated : Bool) (op : Operator) : String :=
  (if negated then notSymbol else "") ++ op.keyword

mutual

/-- The lines of a view that starts at nesting level `depth`. -/
def outline (notSymbol : String) (depth : Nat) : View → List OutlineLine
  | .lines assertions children =>
    assertions.map (OutlineLine.mk depth)
      ++ outlineAll notSymbol (depth + 1) children
  | .group items => outlineAll notSymbol depth items
  | .block negated op items =>
    ⟨depth, header notSymbol negated op⟩
      :: outlineAll notSymbol (depth + 1) items

/-- The lines of several views at one level. -/
def outlineAll (notSymbol : String) (depth : Nat) :
    List View → List OutlineLine
  | [] => []
  | item :: items =>
    outline notSymbol depth item ++ outlineAll notSymbol depth items

end

end View

namespace Result

variable {τ : Type} [DecidableEq τ]

/-- The lines of the justification of a result, before indentation. -/
def outline (r : Result τ) (notSymbol : String) : List OutlineLine :=
  match r.view with
  | some view => view.outline notSymbol 0
  | none => []

/-- The justification of a result, in a given notation. -/
def justification (r : Result τ) (style : Notation) : String :=
  "\n".intercalate
    ((r.outline style.notSymbol).map (OutlineLine.render style))

end Result

end Rationale
