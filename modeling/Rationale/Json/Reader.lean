import Rationale.Json
import Rationale.Word

/-!
# Reading JSON

The reader takes what it can off the front of a list of characters and
returns the rest.  It accepts JSON as written: white space between
tokens, no leading zero, no control character in a text, no comma at the
end, nothing after the value.

A text may contain half of a surrogate pair as an escape, which stands
for no character.  `Care` says where that matters.  A value that is not
looked at may contain one, and everything else may not.
-/

namespace Rationale.Json

/-! ## Scalars -/

/-- White space between tokens. -/
def isSpace (c : Char) : Bool :=
  c = ' ' || c = '\n' || c = '\t' || c = '\r'

/-- The text behind the white space at its front. -/
def skipSpace (input : List Char) : List Char := input.dropWhile isSpace

/-- The value of a hexadecimal digit. -/
def hexValue? (c : Char) : Option Nat :=
  if '0' ≤ c ∧ c ≤ '9' then some (c.toNat - '0'.toNat)
  else if 'a' ≤ c ∧ c ≤ 'f' then some (c.toNat - 'a'.toNat + 10)
  else if 'A' ≤ c ∧ c ≤ 'F' then some (c.toNat - 'A'.toNat + 10)
  else none

/-- The value of four hexadecimal digits. -/
def hexValue4? (a b c d : Char) : Option Nat := do
  return (((← hexValue? a) * 16 + (← hexValue? b)) * 16 + (← hexValue? c)) * 16
    + (← hexValue? d)

/-- The character of an escape of one letter. -/
def escaped? (c : Char) : Option Char :=
  if c = '"' then some '"'
  else if c = '\\' then some '\\'
  else if c = '/' then some '/'
  else if c = 'b' then some '\x08'
  else if c = 'f' then some '\x0c'
  else if c = 'n' then some '\n'
  else if c = 'r' then some '\r'
  else if c = 't' then some '\t'
  else none

/-- Reads a text behind its opening quotation mark: code points, and code
units where they were written as escapes. -/
def readUnits : List Char → Option (List Nat × List Char)
  | [] => none
  | '\\' :: 'u' :: a :: b :: c :: d :: rest => do
    let unit ← hexValue4? a b c d
    let (units, rest) ← readUnits rest
    return (unit :: units, rest)
  | '\\' :: c :: rest => do
    let c ← escaped? c
    let (units, rest) ← readUnits rest
    return (c.toNat :: units, rest)
  | c :: rest =>
    if c = '"' then some ([], rest)
    else if c.toNat < 0x20 then none
    else do
      let (units, rest) ← readUnits rest
      return (c.toNat :: units, rest)

/-- Whether a unit is the first half of a surrogate pair. -/
def isHighSurrogate (unit : Nat) : Bool := 0xD800 ≤ unit && unit < 0xDC00

/-- Whether a unit is the second half of a surrogate pair. -/
def isLowSurrogate (unit : Nat) : Bool := 0xDC00 ≤ unit && unit < 0xE000

/-- The characters of a list of units, if no half pair is left over. -/
def joinUnits : List Nat → Option (List Char)
  | [] => some []
  | high :: low :: units =>
    if isHighSurrogate high then
      if isLowSurrogate low then
        (Char.ofNat (0x10000 + (high - 0xD800) * 0x400 + (low - 0xDC00)) :: ·)
          <$> joinUnits units
      else none
    else if isLowSurrogate high then none
    else (Char.ofNat high :: ·) <$> joinUnits (low :: units)
  | [unit] =>
    if isHighSurrogate unit || isLowSurrogate unit then none
    else some [Char.ofNat unit]

/-- Reads a text behind its opening quotation mark.  A half pair makes a
strict reader fail and a lax one go on. -/
def readText (strict : Bool) (input : List Char) :
    Option (String × List Char) := do
  let (units, rest) ← readUnits input
  match joinUnits units with
  | some cs => return (String.ofList cs, rest)
  | none => if strict then none else return ("", rest)

/-- Reads digits, at least one. -/
def readDigits (input : List Char) : Option (List Char × List Char) :=
  match input.takeWhile Char.isDigit with
  | [] => none
  | digits => some (digits, input.dropWhile Char.isDigit)

/-- Reads the part of a number behind its decimal point, with the point.
There may be none. -/
def readFraction : List Char → Option (List Char × List Char)
  | '.' :: rest => do
    let (digits, rest) ← readDigits rest
    return ('.' :: digits, rest)
  | rest => some ([], rest)

/-- Reads the sign of an exponent, if it has one. -/
def readSign : List Char → List Char × List Char
  | '+' :: rest => (['+'], rest)
  | '-' :: rest => (['-'], rest)
  | rest => ([], rest)

/-- Reads the exponent of a number, with its letter.  There may be
none. -/
def readExponent : List Char → Option (List Char × List Char)
  | [] => some ([], [])
  | c :: rest =>
    if c = 'e' ∨ c = 'E' then do
      let (sign, rest) := readSign rest
      let (digits, rest) ← readDigits rest
      return (c :: sign ++ digits, rest)
    else some ([], c :: rest)

/-- The number of some digits with a sign.  A negative zero and a number
beyond 64 bits are no integers. -/
def integerOrDecimal (negative : Bool) (digits : List Char) : Json :=
  let n := Nat.ofDigitChars 10 digits 0
  if negative then
    if 0 < n ∧ n ≤ Word.half then .integer (-(n : Int))
    else if n = 0 then .decimal "-0.0"
    else .decimal (String.ofList ('-' :: digits))
  else if n < Word.count then .integer n
  else .decimal (String.ofList digits)

/-- Reads a number behind its sign. -/
def readUnsigned (negative : Bool) (input : List Char) :
    Option (Json × List Char) := do
  let (digits, rest) ← readDigits input
  if digits.head? = some '0' ∧ digits ≠ ['0'] then none
  else
    let (fraction, rest) ← readFraction rest
    let (exponent, rest) ← readExponent rest
    if fraction.isEmpty && exponent.isEmpty then
      return (integerOrDecimal negative digits, rest)
    else
      let sign := if negative then ['-'] else []
      return (.decimal (String.ofList (sign ++ digits ++ fraction ++ exponent)),
        rest)

/-- Reads a number. -/
def readNumber : List Char → Option (Json × List Char)
  | '-' :: rest => readUnsigned true rest
  | rest => readUnsigned false rest

/-! ## Values -/

/-- Which texts are looked at. -/
inductive Care where
  /-- Every text. -/
  | full
  /-- No text. -/
  | none
  /-- Keys, items, and the members with the given names. -/
  | fields (names : List String)

namespace Care

/-- Whether texts at this point are looked at. -/
def isStrict : Care → Bool
  | .full | .fields _ => true
  | .none => false

/-- The care for the items of a list. -/
def forItem : Care → Care
  | .full | .fields _ => .full
  | .none => .none

/-- The care for the value of a member. -/
def forMember (care : Care) (key : String) : Care :=
  match care with
  | .full => .full
  | .none => .none
  | .fields names => if key ∈ names then .full else .none

end Care

mutual

/-- Reads a value, white space in front of it included. -/
def readValue (care : Care) : Nat → List Char → Option (Json × List Char)
  | 0, _ => none
  | fuel + 1, input =>
    match skipSpace input with
    | 'n' :: 'u' :: 'l' :: 'l' :: rest => some (.null, rest)
    | 't' :: 'r' :: 'u' :: 'e' :: rest => some (.bool true, rest)
    | 'f' :: 'a' :: 'l' :: 's' :: 'e' :: rest => some (.bool false, rest)
    | '"' :: rest => do
      let (s, rest) ← readText care.isStrict rest
      return (.text s, rest)
    | '[' :: rest =>
      match skipSpace rest with
      | ']' :: rest => some (.list [], rest)
      | rest => do
        let (items, rest) ← readItems care fuel rest
        return (.list items, rest)
    | '\x7b' :: rest =>
      match skipSpace rest with
      | '\x7d' :: rest => some (.record [], rest)
      | rest => do
        let (members, rest) ← readMembers care fuel rest
        return (.record members, rest)
    | rest => readNumber rest

/-- Reads items up to the closing bracket, at least one. -/
def readItems (care : Care) : Nat → List Char →
    Option (List Json × List Char)
  | 0, _ => none
  | fuel + 1, input => do
    let (item, rest) ← readValue care.forItem fuel input
    match skipSpace rest with
    | ',' :: rest =>
      let (items, rest) ← readItems care fuel rest
      return (item :: items, rest)
    | ']' :: rest => return ([item], rest)
    | _ => none

/-- Reads members up to the closing brace, at least one. -/
def readMembers (care : Care) : Nat → List Char →
    Option (List (String × Json) × List Char)
  | 0, _ => none
  | fuel + 1, input =>
    match skipSpace input with
    | '"' :: rest => do
      let (key, rest) ← readText care.isStrict rest
      match skipSpace rest with
      | ':' :: rest =>
        let (value, rest) ← readValue (care.forMember key) fuel rest
        match skipSpace rest with
        | ',' :: rest =>
          let (members, rest) ← readMembers care fuel rest
          return ((key, value) :: members, rest)
        | '\x7d' :: rest => return ([(key, value)], rest)
        | _ => none
      | _ => none
    | _ => none

end

/-! White space in front is skipped first, so inputs that agree behind it are
read alike. -/

section

variable {care : Care} {fuel : Nat} {input other : List Char}

theorem readValue_congr (h : skipSpace input = skipSpace other) :
    readValue care fuel input = readValue care fuel other := by
  cases fuel with
  | zero => rfl
  | succ fuel => rw [readValue, readValue, h]

theorem readItems_congr (h : skipSpace input = skipSpace other) :
    readItems care fuel input = readItems care fuel other := by
  cases fuel with
  | zero => rfl
  | succ fuel => rw [readItems, readItems, readValue_congr h]

theorem readMembers_congr (h : skipSpace input = skipSpace other) :
    readMembers care fuel input = readMembers care fuel other := by
  cases fuel with
  | zero => rfl
  | succ fuel => rw [readMembers, readMembers, h]

end

/-- The value that a text is, with nothing but white space around it. -/
def ofChars? (care : Care) (input : List Char) : Option Json :=
  match readValue care (2 * input.length + 2) input with
  | some (value, rest) => if (skipSpace rest).isEmpty then some value else none
  | none => none

/-- The greatest depth of a value that is read as a whole. -/
def maxDepth : Nat := 127

/-- The value that a text is, looked at as a whole. -/
def ofText? (s : String) : Option Json := do
  let value ← ofChars? .full s.toList
  if value.depth ≤ maxDepth then return value else none

end Rationale.Json
