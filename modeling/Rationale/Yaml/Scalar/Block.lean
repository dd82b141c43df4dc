import Rationale.Yaml.Cell

/-!
# Block scalars

A block scalar is the lines below a `|` or a `>` that stand in some column
or beyond.  Below a `|` they are kept.  Below a `>` the line end between two
lines that start with no blank space is a space, unless empty lines follow
it.
-/

namespace Rationale.Yaml

/-- What becomes of the line ends behind a block scalar. -/
inductive Chomping where
  /-- None is kept. -/
  | strip
  /-- The first is kept. -/
  | clip
  /-- All are kept. -/
  | keep
deriving DecidableEq, Repr

/-! ## The header -/

/-- The chomping that a character asks for. -/
def chomping? (c : Char) : Option Chomping :=
  if c = '-' then some .strip else if c = '+' then some .keep else none

/-- The step of indentation that a character asks for. -/
def indentStep? (c : Char) : Option Nat :=
  if '1' ≤ c ∧ c ≤ '9' then some (c.toNat - '0'.toNat) else none

/-- Reads the header of a block scalar behind its mark: how to chomp, the
step of indentation, in either order, and the rest of the line. -/
def readHeader (cells : List Cell) :
    Option (Chomping × Option Nat × List Cell) := do
  let first := cells.head?.map Cell.char
  let second := (cells.drop 1).head?.map Cell.char
  let (chomping, step, rest) :=
    match first.bind chomping?, first.bind indentStep? with
    | some chomping, _ =>
      match second.bind indentStep? with
      | some step => (chomping, some step, cells.drop 2)
      | none => (chomping, none, cells.drop 1)
    | none, some step =>
      match second.bind chomping? with
      | some chomping => (chomping, some step, cells.drop 2)
      | none => (.clip, some step, cells.drop 1)
    | none, none => (.clip, none, cells)
  return (chomping, step, (← lineRest? rest).drop 1)

/-! ## Lines -/

/-- The empty lines in front of the next line that is not empty. -/
structure EmptyLines where
  /-- The line ends of the empty lines. -/
  ends : List Char
  /-- The widest indentation that was seen. -/
  widest : Nat
  /-- The cells behind the indentation of the next line. -/
  rest : List Cell

/-- Reads empty lines and the indentation of the line behind them, which
ends in column `indent` at the latest, if that is known.  It consists of
spaces. -/
def readEmpty (indent : Option Nat) : Nat → Nat → List Cell →
    Option EmptyLines
  | 0, _, _ => none
  | fuel + 1, widest, cells =>
    let inside := fun (c : Cell) => indent.all fun n => c.column < n
    match cells.dropWhile fun c => c.char = ' ' && inside c with
    | [] => some ⟨[], widest, []⟩
    | c :: rest =>
      let widest := max widest c.column
      if c.char = '\t' && inside c then none
      else if c.isBreak then do
        let more ← readEmpty indent fuel widest rest
        return { more with ends := c.char :: more.ends }
      else some ⟨[], widest, c :: rest⟩

/-- What stands between two lines: the end of the upper one, the ends of
the empty lines between them, and whether the upper one starts with blank
space. -/
structure Seam where
  /-- The end of the upper line, if there is one. -/
  upper : List Char
  /-- The ends of the empty lines. -/
  empty : List Char
  /-- Whether the upper line starts with blank space. -/
  blank : Bool

/-- The text of a seam above a line that starts with blank space or does
not. -/
def Seam.text (s : Seam) (folded blank : Bool) : List Char :=
  if folded && s.upper = ['\n'] && !s.blank && !blank then
    if s.empty.isEmpty then [' '] else s.empty
  else s.upper ++ s.empty

/-- The text of the last seam, which has no line below it. -/
def Seam.last (s : Seam) : Chomping → List Char
  | .strip => []
  | .clip => s.upper
  | .keep => s.upper ++ s.empty

/-- Reads the lines of a block scalar from a seam on. -/
def readLines (folded : Bool) (chomping : Chomping) (indent : Nat) :
    Nat → Seam → List Cell → Option (List Char × List Cell)
  | 0, _, _ => none
  | _ + 1, seam, [] => some (seam.last chomping, [])
  | fuel + 1, seam, c :: rest =>
    if c.column = indent then do
      let line := (c :: rest).takeWhile fun d => !d.isBreak
      let behind := (c :: rest).dropWhile fun d => !d.isBreak
      let next ← readEmpty (some indent) (behind.length + 1) 0 (behind.drop 1)
      let below := ⟨(behind.take 1).map Cell.char, next.ends, c.isBlank⟩
      let (cs, after) ← readLines folded chomping indent fuel below next.rest
      return (seam.text folded c.isBlank ++ line.map Cell.char ++ cs, after)
    else some (seam.last chomping, c :: rest)

/-- Reads a block scalar behind its mark.  Its lines stand in column
`least` or beyond, and in column 1 at least.  Without a step of indentation
the first line sets the column, or an empty line above it that is wider. -/
def readBlock (folded : Bool) (least : Nat) (cells : List Cell) :
    Option (List Char × List Cell) := do
  let (chomping, step, body) ← readHeader cells
  let indent := step.map fun n => least - 1 + n
  let first ← readEmpty indent (body.length + 1) 0 body
  let column := indent.getD (max first.widest (max least 1))
  readLines folded chomping column (first.rest.length + 1)
    ⟨[], first.ends, false⟩ first.rest

end Rationale.Yaml
