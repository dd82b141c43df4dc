import Rationale.Json

/-!
# JSON text

A value is printed in one of two layouts: compactly, or with every item
and member on a line of its own.  The layouts differ in white space only,
so `Layout` holds that white space and there is one printer.

A text is written between quotation marks.  Quotation marks, backslashes
and the characters below U+0020 are escaped, and nothing else is.
-/

namespace Rationale.Json

/-- The white space of a layout. -/
structure Layout where
  /-- What stands in front of an item at some depth. -/
  line : Nat → List Char
  /-- What stands between a key and its value, after the colon. -/
  gap : List Char

namespace Layout

/-- No white space at all. -/
def compact : Layout := ⟨fun _ => [], []⟩

/-- A line for every item, indented by two spaces per depth. -/
def indented : Layout :=
  ⟨fun depth => '\n' :: List.replicate (2 * depth) ' ', [' ']⟩

end Layout

/-! ## Scalars -/

/-- A hexadecimal digit below sixteen. -/
def hexDigit (n : Nat) : Char := Nat.digitChar n

/-- A character as it is written inside a text. -/
def escapeChar (c : Char) : List Char :=
  if c = '"' then ['\\', '"']
  else if c = '\\' then ['\\', '\\']
  else if c = '\x08' then ['\\', 'b']
  else if c = '\t' then ['\\', 't']
  else if c = '\n' then ['\\', 'n']
  else if c = '\x0c' then ['\\', 'f']
  else if c = '\r' then ['\\', 'r']
  else if c.toNat < 0x20 then
    ['\\', 'u', '0', '0', hexDigit (c.toNat / 16), hexDigit (c.toNat % 16)]
  else [c]

/-- A text as it is written, with its quotation marks. -/
def printText (s : String) : List Char :=
  '"' :: s.toList.flatMap escapeChar ++ ['"']

/-- An integer in decimal digits. -/
def printInteger : Int → List Char
  | .ofNat n => Nat.toDigits 10 n
  | .negSucc n => '-' :: Nat.toDigits 10 (n + 1)

/-! ## Values -/

mutual

/-- A value as it is written at some depth. -/
def print (layout : Layout) (depth : Nat) : Json → List Char
  | .null => ['n', 'u', 'l', 'l']
  | .bool true => ['t', 'r', 'u', 'e']
  | .bool false => ['f', 'a', 'l', 's', 'e']
  | .integer n => printInteger n
  | .decimal written => written.toList
  | .text s => printText s
  | .list [] => ['[', ']']
  | .list (item :: items) =>
    '[' :: layout.line (depth + 1) ++ print layout (depth + 1) item
      ++ printItems layout depth items ++ layout.line depth ++ [']']
  | .record [] => ['\x7b', '\x7d']
  | .record ((key, value) :: members) =>
    '\x7b' :: layout.line (depth + 1) ++ printText key ++ ':' :: layout.gap
      ++ print layout (depth + 1) value
      ++ printMembers layout depth members ++ layout.line depth ++ ['\x7d']

/-- The items after the first one, each behind a comma. -/
def printItems (layout : Layout) (depth : Nat) : List Json → List Char
  | [] => []
  | item :: items =>
    ',' :: layout.line (depth + 1) ++ print layout (depth + 1) item
      ++ printItems layout depth items

/-- The members after the first one, each behind a comma. -/
def printMembers (layout : Layout) (depth : Nat) :
    List (String × Json) → List Char
  | [] => []
  | (key, value) :: members =>
    ',' :: layout.line (depth + 1) ++ printText key ++ ':' :: layout.gap
      ++ print layout (depth + 1) value ++ printMembers layout depth members

end

/-- The value on one line, without white space. -/
def compactText (v : Json) : String := String.ofList (print .compact 0 v)

/-- The value with a line for every item. -/
def indentedText (v : Json) : String := String.ofList (print .indented 0 v)

/-- The canonical text of a value.  It does not depend on the order of
members. -/
def canonicalText (v : Json) : String := v.sorted.compactText

end Rationale.Json
