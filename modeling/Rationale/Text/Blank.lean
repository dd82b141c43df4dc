import Rationale.Text.Ranges

/-!
# Blank text

A text is blank when it holds nothing but white space.  White space is
the Unicode property `White_Space`, written out as a table: the property
has not changed in many versions and core's own character classes stop at
ASCII.
-/

namespace Rationale.Text

/-- The code points with the property `White_Space`, as closed ranges. -/
def whiteSpaceRanges : Ranges :=
  [(0x9, 0xD), (0x20, 0x20), (0x85, 0x85), (0xA0, 0xA0), (0x1680, 0x1680),
    (0x2000, 0x200A), (0x2028, 0x2029), (0x202F, 0x202F), (0x205F, 0x205F),
    (0x3000, 0x3000)]

/-- Whether a character has the property `White_Space`. -/
def isWhiteSpace (c : Char) : Bool :=
  whiteSpaceRanges.covers c.toNat

/-- Whether a text holds white space only.  The empty text does. -/
def isBlank (s : String) : Bool := s.toList.all isWhiteSpace

/-- The white space that core knows is white space here. -/
theorem isWhiteSpace_of_isWhitespace {c : Char} (h : c.isWhitespace = true) :
    isWhiteSpace c = true := by
  simp only [Char.isWhitespace, Bool.or_eq_true, decide_eq_true_eq] at h
  rcases h with ((rfl | rfl) | rfl) | rfl <;> rfl

end Rationale.Text
