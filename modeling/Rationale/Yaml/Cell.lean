/-!
# The characters of a YAML document

In YAML lines and columns carry the structure.  A document is therefore
read from cells: its characters with the places they stand in.
-/

namespace Rationale.Yaml

/-- A character and the place it stands in. -/
structure Cell where
  /-- The character. -/
  char : Char
  /-- The number of lines before its line. -/
  line : Nat
  /-- The number of characters before it on its line. -/
  column : Nat
  /-- The number of octets before it on its line, in UTF-8. -/
  offset : Nat
deriving DecidableEq, Repr

/-- Whether a character may stand in a document. -/
def isAllowed (c : Char) : Bool :=
  c = '\t' || c = '\n' || c = '\r' || (' ' ≤ c && c ≤ '~') || c.toNat = 0x85
    || (0xA0 ≤ c.toNat && c.toNat ≠ 0xFFFE && c.toNat ≠ 0xFFFF)

/-! ## Line ends -/

/-- Whether a character ends a line. -/
def endsLine (c : Char) : Bool :=
  c = '\n' || c = '\r' || c = '\u0085' || c = '\u2028' || c = '\u2029'

/-- The character that a line end is read as.  The separators of lines and
of paragraphs stay what they are, and all else is a line feed. -/
def lineEnd (c : Char) : Char :=
  if c = '\u2028' ∨ c = '\u2029' then c else '\n'

/-- The cells of some characters, from a given place on.  A carriage
return and a line feed are one line end. -/
def cellsFrom (line column offset : Nat) : List Char → List Cell
  | [] => []
  | '\r' :: '\n' :: rest =>
    ⟨'\n', line, column, offset⟩ :: cellsFrom (line + 1) 0 0 rest
  | c :: rest =>
    if endsLine c then
      ⟨lineEnd c, line, column, offset⟩ :: cellsFrom (line + 1) 0 0 rest
    else
      ⟨c, line, column, offset⟩
        :: cellsFrom line (column + 1) (offset + c.utf8Size) rest

/-- The cells of a document, if all its characters may stand there. -/
def cells? (s : String) : Option (List Cell) :=
  if s.toList.all isAllowed then some (cellsFrom 0 0 0 s.toList) else none

/-! ## White space -/

/-- Whether a cell is blank space within a line. -/
def Cell.isBlank (c : Cell) : Bool := c.char = ' ' || c.char = '\t'

/-- Whether a cell ends a line. -/
def Cell.isBreak (c : Cell) : Bool := endsLine c.char

/-- Whether a cell is blank space or ends a line. -/
def Cell.isWhite (c : Cell) : Bool := c.isBlank || c.isBreak

/-- Whether a cell is a byte order mark at the start of a line. -/
def Cell.isOrderMark (c : Cell) : Bool := c.column = 0 && c.char = '\uFEFF'

/-- Whether the cells start with white space, or there are none. -/
def whiteAhead : List Cell → Bool
  | [] => true
  | c :: _ => c.isWhite

/-- The cells behind the blank space within a line. -/
def skipBlank (cells : List Cell) : List Cell := cells.dropWhile Cell.isBlank

/-- The cells from the end of the line on, if before it there is at most
blank space and a comment. -/
def lineRest? (cells : List Cell) : Option (List Cell) :=
  match skipBlank cells with
  | [] => some []
  | c :: rest =>
    if c.isBreak then some (c :: rest)
    else if c.char = '#' then some (rest.dropWhile fun d => !d.isBreak)
    else none

/-- Moves to the next token.  `comment` tells that a comment has started,
and `keyAllowed` that a key may start here.  Where one may, a tab is no
blank space, unless the place is inside brackets.  Outside of brackets a key
may start on each new line. -/
def skipWhite (flow : Bool) (comment keyAllowed : Bool) :
    List Cell → Bool × List Cell
  | [] => (keyAllowed, [])
  | c :: rest =>
    if c.isBreak then skipWhite flow false (keyAllowed || !flow) rest
    else if comment || c.isOrderMark || c.char = ' '
        || (c.char = '\t' && (flow || !keyAllowed)) then
      skipWhite flow comment keyAllowed rest
    else if c.char = '#' then skipWhite flow true keyAllowed rest
    else (keyAllowed, c :: rest)

/-! ## Document markers -/

/-- Whether a document marker stands here: three equal characters at the
start of a line, with white space behind them. -/
def markerAt (mark : Char) : List Cell → Bool
  | a :: b :: c :: rest =>
    a.column = 0 && a.char = mark && b.char = mark && c.char = mark
      && whiteAhead rest
  | _ => false

/-- Whether a marker stands here that starts or ends a document. -/
def documentMarkerAt (cells : List Cell) : Bool :=
  markerAt '-' cells || markerAt '.' cells

end Rationale.Yaml
