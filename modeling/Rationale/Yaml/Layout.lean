import Rationale.Yaml.Scalar
import Rationale.Yaml.Scalar.Block
import Rationale.Yaml.Tag

/-!
# The tokens of a document

A block collection starts where a dash or a key stands further right than
the collection around it, and it ends where a token stands further left.
Inside brackets and braces columns do not count.

A key is known by the colon behind it only.  Wherever a key may start, the
place is kept as a candidate until a colon or something else follows.  A
key stands on one line and takes 1024 octets at most.

`Token.ofText?` gives the tokens of a text.
-/

namespace Rationale.Yaml

/-! ## Candidates -/

/-- A place where a key may have started. -/
structure Candidate where
  /-- Whether nothing but a key may stand there. -/
  required : Bool
  /-- The number of tokens before it. -/
  position : Nat
  /-- The line of the place. -/
  line : Nat
  /-- The column of the place. -/
  column : Nat
  /-- The offset of the place on its line. -/
  offset : Nat

/-- Whether a colon in `c` is too far away for a key that starts here. -/
def Candidate.isStale (k : Candidate) (c : Cell) : Bool :=
  k.line < c.line || k.offset + 1024 < c.offset

/-- What is left of a candidate when the reader gets to `c`. -/
def Candidate.at? (c : Cell) : Option Candidate → Option (Option Candidate)
  | none => some none
  | some k =>
    if !k.isStale c then some (some k)
    else if k.required then none
    else some none

/-! ## State -/

/-- What has been read of a document. -/
structure Layout where
  /-- The tokens, the latest one first. -/
  tokens : List Token := []
  /-- The columns of the open block collections, the innermost first. -/
  columns : List Nat := []
  /-- The candidate on this level of brackets. -/
  candidate : Option Candidate := none
  /-- The candidates on the levels around it, the innermost first. -/
  outer : List (Option Candidate) := []
  /-- Whether a key may start here. -/
  keyAllowed : Bool := true

namespace Layout

/-- Whether the reader is inside brackets or braces. -/
def inFlow (l : Layout) : Bool := !l.outer.isEmpty

/-- The column in which a collection inside the innermost one may start. -/
def least (l : Layout) : Nat :=
  match l.columns with
  | [] => 0
  | column :: _ => column + 1

/-- Adds a token. -/
def emit (l : Layout) (t : Token) : Layout := { l with tokens := t :: l.tokens }

/-- Adds a token behind the first `position` ones. -/
def insert (l : Layout) (position : Nat) (t : Token) : Layout :=
  let later := l.tokens.length - position
  { l with tokens := l.tokens.take later ++ t :: l.tokens.drop later }

/-- Says whether a key may start next. -/
def allowKey (l : Layout) (allowed : Bool) : Layout :=
  { l with keyAllowed := allowed }

/-! ### Candidates -/

/-- Drops the candidate of this level, since no colon makes it a key. -/
def dropCandidate? (l : Layout) : Option Layout :=
  match l.candidate with
  | none => some l
  | some k => if k.required then none else some { l with candidate := none }

/-- Makes the place of `c` the candidate, if a key may start there.  In the
column of the innermost block collection it has to be one. -/
def offer? (l : Layout) (c : Cell) : Option Layout :=
  if l.keyAllowed then do
    let l ← l.dropCandidate?
    let required := !l.inFlow && l.columns.head? = some c.column
    return { l with
      candidate :=
        some ⟨required, l.tokens.length, c.line, c.column, c.offset⟩ }
  else some l

/-! ### Block collections -/

/-- Opens a block collection in a column behind the first `position`
tokens, unless one is open there. -/
def openBlock (l : Layout) (column position : Nat) (t : Token) : Layout :=
  if !l.inFlow && l.least ≤ column then
    { l.insert position t with columns := column :: l.columns }
  else l

/-- Opens a block collection at `c`, unless one is open there. -/
def openBlockAt (l : Layout) (c : Cell) (t : Token) : Layout :=
  l.openBlock c.column l.tokens.length t

/-- Closes the first `count` open block collections. -/
def closeBlocks (l : Layout) (count : Nat) : Layout :=
  { l with
    tokens := List.replicate count .blockEnd ++ l.tokens
    columns := l.columns.drop count }

/-- Gets to the next token, which is at `c`. -/
def arrive? (l : Layout) (c : Cell) : Option Layout := do
  let candidate ← Candidate.at? c l.candidate
  let outer ← l.outer.mapM (Candidate.at? c)
  let l := { l with candidate, outer }
  if l.inFlow then return l
  else return l.closeBlocks (l.columns.takeWhile (c.column < ·)).length

/-- Ends the content of a document. -/
def endContent? (l : Layout) : Option Layout :=
  if l.inFlow then none
  else (l.closeBlocks l.columns.length).dropCandidate?

/-! ## Marks -/

/-- Adds the marker or the directive of a document. -/
def mark? (l : Layout) (t : Token) : Option Layout := do
  return ((← l.endContent?).allowKey false).emit t

/-- Opens brackets or braces at `c`. -/
def openFlow? (l : Layout) (c : Cell) (t : Token) : Option Layout := do
  let l ← l.offer? c
  return ({ l with candidate := none, outer := l.candidate :: l.outer }.allowKey
    true).emit t

/-- Closes brackets or braces.  Outside them it only adds the token: the
one that closes a list may have been skipped behind the mark of an empty
key. -/
def closeFlow? (l : Layout) (t : Token) : Option Layout := do
  let l ← l.dropCandidate?
  let l :=
    match l.outer with
    | [] => l
    | candidate :: outer => { l with candidate, outer }
  return (l.allowKey false).emit t

/-- Adds a comma. -/
def comma? (l : Layout) : Option Layout := do
  return ((← l.dropCandidate?).allowKey true).emit .comma

/-- Adds a dash at `c`. -/
def dash? (l : Layout) (c : Cell) : Option Layout := do
  if l.inFlow || !l.keyAllowed then none
  else
    let l ← (l.openBlockAt c .blockList).dropCandidate?
    return (l.allowKey true).emit .dash

/-- Adds the mark of a key, a `?` at `c`. -/
def key? (l : Layout) (c : Cell) : Option Layout := do
  if !l.inFlow && !l.keyAllowed then none
  else
    let l ← (l.openBlockAt c .blockMapping).dropCandidate?
    return (l.allowKey !l.inFlow).emit .key

/-- Adds the colon of a value at `c`.  It makes the candidate a key, or it
follows a key that has a mark. -/
def value? (l : Layout) (c : Cell) : Option Layout :=
  match l.candidate with
  | some k =>
    let l := { l with candidate := none }.insert k.position .key
    let l := l.openBlock k.column k.position .blockMapping
    some ((l.allowKey false).emit .value)
  | none =>
    if !l.inFlow && !l.keyAllowed then none
    else some (((l.openBlockAt c .blockMapping).allowKey !l.inFlow).emit .value)

/-! ## Tokens -/

/-- Whether a tag may end here. -/
def endsTag (l : Layout) (cells : List Cell) : Bool :=
  whiteAhead cells || (l.inFlow && cells.head?.any fun c => c.char = ',')

/-- Reads the content of a node at `c`, or a name or a tag in front of
one. -/
def readContent? (l : Layout) (c : Cell) (rest : List Cell) :
    Option (Layout × List Cell) := do
  if c.char = '&' ∨ c.char = '*' then
    let (name, rest) ← readAnchor rest
    let t := if c.char = '&' then Token.anchor name else .alias name
    return (((← l.offer? c).allowKey false).emit t, rest)
  else if c.char = '!' then
    let (t, rest) ← readTag rest
    if l.endsTag rest then
      return (((← l.offer? c).allowKey false).emit t, rest)
    else none
  else if c.char = '"' ∨ c.char = '\'' then
    let (cs, rest) ← readQuoted c.char (rest.length + 1) rest
    let t := Token.scalar .quoted (String.ofList cs)
    return (((← l.offer? c).allowKey false).emit t, rest)
  else if (c.char = '|' ∨ c.char = '>') ∧ !l.inFlow then
    let folded := c.char = '>'
    let (cs, rest) ← readBlock folded l.least rest
    let style := if folded then Style.folded else .literal
    let t := Token.scalar style (String.ofList cs)
    return (((← l.dropCandidate?).allowKey true).emit t, rest)
  else if startsPlain l.inFlow (c :: rest) then
    let plain ← readPlain l.inFlow l.least (rest.length + 2) (c :: rest)
    let t := Token.scalar .plain (String.ofList plain.text)
    return (((← l.offer? c).allowKey plain.ended).emit t, plain.rest)
  else none

/-- Reads the token at `c`. -/
def readToken? (l : Layout) (c : Cell) (rest : List Cell) :
    Option (Layout × List Cell) := do
  if c.column = 0 ∧ c.char = '%' then
    let (t, rest) ← readDirective rest
    return (← l.mark? t, rest)
  else if markerAt '-' (c :: rest) then
    return (← l.mark? .documentStart, rest.drop 2)
  else if markerAt '.' (c :: rest) then
    return (← l.mark? .documentEnd, rest.drop 2)
  else if c.char = '[' then return (← l.openFlow? c .flowList, rest)
  else if c.char = '\x7b' then return (← l.openFlow? c .flowMapping, rest)
  else if c.char = ']' then return (← l.closeFlow? .flowListEnd, rest)
  else if c.char = '\x7d' then return (← l.closeFlow? .flowMappingEnd, rest)
  else if c.char = ',' then return (← l.comma?, rest)
  else if c.char = '-' ∧ whiteAhead rest then return (← l.dash? c, rest)
  else if c.char = '?' ∧ (l.inFlow || whiteAhead rest) then
    return (← l.key? c, rest)
  else if c.char = ':' ∧ (l.inFlow || whiteAhead rest) then
    return (← l.value? c, rest)
  else l.readContent? c rest

/-- Reads the tokens up to the end of the text. -/
def readTokens? : Nat → Layout → List Cell → Option (List Token)
  | 0, _, _ => none
  | fuel + 1, l, cells => do
    let (keyAllowed, cells) := skipWhite l.inFlow false l.keyAllowed cells
    match cells with
    | [] => return (← l.endContent?).tokens.reverse
    | c :: rest =>
      let l ← (l.allowKey keyAllowed).arrive? c
      let (l, rest) ← l.readToken? c rest
      readTokens? fuel l rest

end Layout

/-- The tokens of a text. -/
def Token.ofText? (s : String) : Option (List Token) := do
  let cells ← cells? s
  ({} : Layout).readTokens? (cells.length + 1) cells

end Rationale.Yaml
