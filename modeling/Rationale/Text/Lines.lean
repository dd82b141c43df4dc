/-!
# Lines of a text

A line ends at a line feed, and one carriage return in front of that line
feed belongs to the ending.  What follows the last line feed is a line of
its own unless it is empty, and there a carriage return is text.
-/

namespace Rationale.Text

/-- Drops one carriage return from the end. -/
def dropCarriageReturn (line : List Char) : List Char :=
  if line.getLast? = some '\r' then line.dropLast else line

/-- The lines of a text of which `line` has been read, last character
first. -/
def linesFrom (line : List Char) : List Char → List (List Char)
  | [] => if line.isEmpty then [] else [line.reverse]
  | c :: rest =>
    if c = '\n' then dropCarriageReturn line.reverse :: linesFrom [] rest
    else linesFrom (c :: line) rest

/-- The lines of a text. -/
def lines (s : String) : List String :=
  (linesFrom [] s.toList).map String.ofList

end Rationale.Text
