import Rationale.Json.Reader
import Rationale.Yaml.Cell

/-!
# Plain and quoted scalars

A plain scalar ends where structure begins.  A quoted one ends at its
quotation mark.  Either may run over several lines, and then it is
folded: one line end is a space, and of several the first is dropped.
-/

namespace Rationale.Yaml

/-! ## Folding -/

/-- The characters of the line ends among some cells. -/
def lineEnds (cells : List Cell) : List Char :=
  (cells.filter Cell.isBreak).map Cell.char

/-- The text that stands for the white space between two words.  Only a
line feed is dropped or made a space. -/
def foldWhite (white : List Cell) : List Char :=
  match lineEnds white with
  | [] => white.map Cell.char
  | '\n' :: more => if more.isEmpty then [' '] else more
  | ends => ends

/-! ## Plain scalars -/

/-- The characters that structure a flow collection. -/
def isFlowMark (c : Char) : Bool :=
  c = ',' || c = '[' || c = ']' || c = '\x7b' || c = '\x7d'

/-- Whether a plain scalar may start here. -/
def startsPlain (flow : Bool) : List Cell → Bool
  | [] => false
  | c :: rest =>
    let special := "-?:,[]#&*!|>'\"%@`".toList ++ ['\x7b', '\x7d']
    if c.char = '-' then !whiteAhead rest
    else if c.char = '?' || c.char = ':' then !flow && !whiteAhead rest
    else !(c.isWhite || c.char ∈ special)

/-- Whether a plain scalar ends here. -/
def endsPlain (flow : Bool) : List Cell → Bool
  | [] => true
  | c :: rest =>
    c.isWhite || (c.char = ':' && whiteAhead rest) || (flow && isFlowMark c.char)

/-- Whether a colon stands against a flow mark, where no scalar may hold
one. -/
def badColon (flow : Bool) : List Cell → Bool
  | a :: b :: _ => flow && a.char = ':' && (isFlowMark b.char || b.char = '?')
  | _ => false

/-- Reads the part of a plain scalar up to the next white space. -/
def readWord (flow : Bool) : List Cell → Option (List Char × List Cell)
  | [] => some ([], [])
  | c :: rest =>
    if endsPlain flow (c :: rest) then some ([], c :: rest)
    else if badColon flow (c :: rest) then none
    else do
      let (cs, rest) ← readWord flow rest
      return (c.char :: cs, rest)

/-- A plain scalar that was read. -/
structure Plain where
  /-- Its text. -/
  text : List Char
  /-- Whether its last line has ended. -/
  ended : Bool
  /-- The cells behind it and the white space that follows. -/
  rest : List Cell

/-- Whether a plain scalar goes on in these cells, which follow white
space.  Outside of brackets its lines stand in column `least` or beyond. -/
def continuesPlain (flow : Bool) (least : Nat) (cells : List Cell) : Bool :=
  match cells with
  | [] => false
  | c :: _ =>
    (flow || least ≤ c.column) && !documentMarkerAt cells && c.char ≠ '#'
      && !endsPlain flow cells

/-- Reads a plain scalar.  In front of column `least` a line may not be
indented with a tab. -/
def readPlain (flow : Bool) (least : Nat) : Nat → List Cell → Option Plain
  | 0, _ => none
  | fuel + 1, cells => do
    let (word, rest) ← readWord flow cells
    let white := rest.takeWhile Cell.isWhite
    let next := rest.dropWhile Cell.isWhite
    let indentation := white.dropWhile Cell.isBlank
    if indentation.any fun c => c.char = '\t' && c.column < least then none
    else if continuesPlain flow least next && !white.isEmpty then
      let more ← readPlain flow least fuel next
      return { more with text := word ++ foldWhite white ++ more.text }
    else return ⟨word, !indentation.isEmpty, next⟩

/-! ## Quoted scalars -/

/-- The character of an escape of one letter. -/
def escaped? (c : Char) : Option Char :=
  match c with
  | '0' => some '\x00'
  | 'a' => some '\x07'
  | 'b' => some '\x08'
  | 't' => some '\t'
  | '\t' => some '\t'
  | 'n' => some '\n'
  | 'v' => some '\x0b'
  | 'f' => some '\x0c'
  | 'r' => some '\r'
  | 'e' => some '\x1b'
  | ' ' => some ' '
  | '"' => some '"'
  | '/' => some '/'
  | '\\' => some '\\'
  | 'N' => some '\u0085'
  | '_' => some '\u00a0'
  | 'L' => some '\u2028'
  | 'P' => some '\u2029'
  | _ => none

/-- The number of hexadecimal digits behind the letter of an escape. -/
def hexLength? (c : Char) : Option Nat :=
  match c with
  | 'x' => some 2
  | 'u' => some 4
  | 'U' => some 8
  | _ => none

/-- The number of some hexadecimal digits. -/
def hexNumber? (digits : List Char) : Option Nat :=
  digits.foldlM (fun n c => do return n * 16 + (← Json.hexValue? c)) 0

/-- The character of a code point, if it has one. -/
def charOf? (n : Nat) : Option Char :=
  if n.isValidChar then some (Char.ofNat n) else none

/-- Reads an escape behind its backslash, on one line. -/
def readEscape : List Cell → Option (Char × List Cell)
  | [] => none
  | c :: rest =>
    match hexLength? c.char with
    | some length => do
      let digits := (rest.take length).map Cell.char
      if digits.length < length then none
      else return (← charOf? (← hexNumber? digits), rest.drop length)
    | none => do return (← escaped? c.char, rest)

/-- Whether the cells start with a line end. -/
def breakAhead : List Cell → Bool
  | [] => false
  | c :: _ => c.isBreak

/-- Reads a quoted scalar behind its opening mark, `'` or `"`.  Between
double marks a backslash at the end of a line drops the line end and the
indentation of the next line. -/
def readQuoted (mark : Char) : Nat → List Cell →
    Option (List Char × List Cell)
  | 0, _ => none
  | _ + 1, [] => none
  | fuel + 1, c :: rest =>
    if documentMarkerAt (c :: rest) then none
    else if c.isWhite then do
      let white := (c :: rest).takeWhile Cell.isWhite
      let next := (c :: rest).dropWhile Cell.isWhite
      let (cs, after) ← readQuoted mark fuel next
      return (foldWhite white ++ cs, after)
    else if c.char = mark then
      match rest with
      | [] => some ([], [])
      | d :: after =>
        if mark = '\'' ∧ d.char = '\'' then do
          let (cs, after) ← readQuoted mark fuel after
          return ('\'' :: cs, after)
        else some ([], rest)
    else if mark = '"' ∧ c.char = '\\' then
      if breakAhead rest then do
        let white := (rest.drop 1).takeWhile Cell.isWhite
        let next := (rest.drop 1).dropWhile Cell.isWhite
        let (cs, after) ← readQuoted mark fuel next
        return (lineEnds white ++ cs, after)
      else do
        let (escaped, rest) ← readEscape rest
        let (cs, after) ← readQuoted mark fuel rest
        return (escaped :: cs, after)
    else do
      let (cs, after) ← readQuoted mark fuel rest
      return (c.char :: cs, after)

end Rationale.Yaml
