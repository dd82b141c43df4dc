import Rationale.Json.Reader
import Rationale.Yaml.Cell
import Rationale.Yaml.Token

/-!
# Anchors, tags and directives

A tag is a handle and a rest, and a handle stands for the text that a
directive gives it.  Octets may be written as a percent sign and two
hexadecimal digits.  In the text of a tag an octet is the character of
its number.
-/

namespace Rationale.Yaml

/-- The characters that a name takes up, and the cells behind it. -/
def readName (cells : List Cell) : String × List Cell :=
  let name := cells.takeWhile fun c => isNameChar c.char
  (String.ofList (name.map Cell.char),
    cells.dropWhile fun c => isNameChar c.char)

/-! ## Anchors -/

/-- Whether the name of an anchor may end here. -/
def endsAnchor : List Cell → Bool
  | [] => true
  | c :: _ => c.isWhite || c.char ∈ "?:,]%@`".toList || c.char = '\x7d'

/-- Reads the name of an anchor. -/
def readAnchor (cells : List Cell) : Option (String × List Cell) :=
  let (name, rest) := readName cells
  if name.isEmpty || !endsAnchor rest then none else some (name, rest)

/-! ## Octets -/

/-- Reads one octet behind its percent sign. -/
def readOctet : List Cell → Option (Nat × List Cell)
  | a :: b :: rest => do
    return ((← Json.hexValue? a.char) * 16 + (← Json.hexValue? b.char), rest)
  | _ => none

/-- The number of octets of a character in UTF-8, from the first one. -/
def octetCount? (octet : Nat) : Option Nat :=
  if octet < 0x80 then some 1
  else if octet < 0xC0 then none
  else if octet < 0xE0 then some 2
  else if octet < 0xF0 then some 3
  else if octet < 0xF8 then some 4
  else none

/-- Reads the further octets of a character. -/
def readFurtherOctets : Nat → List Cell → Option (List Char × List Cell)
  | 0, cells => some ([], cells)
  | count + 1, c :: rest =>
    if c.char = '%' then do
      let (octet, rest) ← readOctet rest
      if octet < 0x80 || 0xC0 ≤ octet then none
      else
        let (cs, rest) ← readFurtherOctets count rest
        return (Char.ofNat octet :: cs, rest)
    else none
  | _ + 1, [] => none

/-- Reads the octets of a character behind the first percent sign. -/
def readOctets (cells : List Cell) : Option (List Char × List Cell) := do
  let (octet, rest) ← readOctet cells
  let (cs, rest) ← readFurtherOctets ((← octetCount? octet) - 1) rest
  return (Char.ofNat octet :: cs, rest)

/-! ## Tags -/

/-- Whether a character may stand in a tag.  A comma and brackets may only
where the tag is `whole`. -/
def isTagChar (whole : Bool) (c : Char) : Bool :=
  isNameChar c || c ∈ ";/?:@&=+$.%!~*'()".toList
    || (whole && (c = ',' || c = '[' || c = ']'))

/-- Reads the characters of a tag. -/
def readTagChars (whole : Bool) : Nat → List Cell →
    Option (List Char × List Cell)
  | 0, _ => none
  | _ + 1, [] => some ([], [])
  | fuel + 1, c :: rest =>
    if !isTagChar whole c.char then some ([], c :: rest)
    else do
      let (first, rest) ←
        if c.char = '%' then readOctets rest else some ([c.char], rest)
      let (cs, rest) ← readTagChars whole fuel rest
      return (first ++ cs, rest)

/-- Reads a text of tag characters that is not empty.  It ends in front of
an octet 0. -/
def readTagText (whole : Bool) (cells : List Cell) :
    Option (String × List Cell) := do
  let (cs, rest) ← readTagChars whole (cells.length + 1) cells
  if cs.isEmpty then none
  else return (String.ofList (cs.takeWhile fun c => c ≠ '\x00'), rest)

/-- Reads a handle behind its exclamation mark, and tells whether another
one closes it. -/
def readHandle (cells : List Cell) : String × Bool × List Cell :=
  match readName cells with
  | (name, c :: rest) =>
    if c.char = '!' then (name, true, rest) else (name, false, c :: rest)
  | (name, []) => (name, false, [])

/-- Reads a tag behind its exclamation mark.  A tag is written in full
between angle brackets, or behind a closed handle, or behind the handle
`!`. -/
def readTag (cells : List Cell) : Option (Token × List Cell) :=
  if cells.head?.any fun c => c.char = '<' then do
    let (text, rest) ← readTagText true (cells.drop 1)
    if rest.head?.any fun c => c.char = '>' then
      return (.tag "" text, rest.drop 1)
    else none
  else
    match readHandle cells with
    | (name, true, rest) => do
      let (text, rest) ← readTagText false rest
      return (.tag ("!" ++ name ++ "!") text, rest)
    | (name, false, rest) => do
      let (cs, rest) ← readTagChars false (rest.length + 1) rest
      let text := name ++ String.ofList (cs.takeWhile fun c => c ≠ '\x00')
      return (if text.isEmpty then .tag "" "!" else .tag "!" text, rest)

/-! ## Directives -/

/-- Reads a number of nine digits at most. -/
def readVersionNumber (cells : List Cell) : Option (Nat × List Cell) :=
  let digits := cells.takeWhile fun c => c.char.isDigit
  if digits.isEmpty || 9 < digits.length then none
  else
    some (digits.foldl (fun n c => n * 10 + (c.char.toNat - '0'.toNat)) 0,
      cells.drop digits.length)

/-- Reads the version of YAML that a directive asks for. -/
def readVersion (cells : List Cell) : Option (Token × List Cell) := do
  let (major, rest) ← readVersionNumber (skipBlank cells)
  if rest.head?.any fun c => c.char = '.' then
    let (minor, rest) ← readVersionNumber (rest.drop 1)
    return (.version major minor, rest)
  else none

/-- Whether the cells start with blank space within a line. -/
def blankAhead (cells : List Cell) : Bool := cells.head?.any Cell.isBlank

/-- Reads the handle that a directive names, and what it stands for. -/
def readHandleMeaning (cells : List Cell) : Option (Token × List Cell) :=
  match skipBlank cells with
  | [] => none
  | c :: rest => do
    let (name, closed, rest) := readHandle rest
    if c.char ≠ '!' || (!closed && !name.isEmpty) || !blankAhead rest then none
    else
      let (meaning, rest) ← readTagText true (skipBlank rest)
      let name := if closed then "!" ++ name ++ "!" else "!"
      if whiteAhead rest then return (.handle name meaning, rest) else none

/-- Reads a directive behind its percent sign, with its line. -/
def readDirective (cells : List Cell) : Option (Token × List Cell) := do
  let (name, rest) := readName cells
  if !whiteAhead rest then none
  else
    let (token, rest) ←
      if name = "YAML" then readVersion rest
      else if name = "TAG" then readHandleMeaning rest
      else none
    return (token, (← lineRest? rest).drop 1)

end Rationale.Yaml
