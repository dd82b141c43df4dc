import Rationale.Json.Reader

/-!
# Records of known fields

A stored record has known fields in a fixed order.  It is written as a
JSON record, in which unknown members are skipped and a known one may
occur once, or as a list of the field values in order.

`slots` finds the value of each field, and the readers below it turn a
value into a number, a text or a list of texts.
-/

namespace Rationale.Json

/-- The values of the known fields.  A list has to hold the first `least`
fields. -/
def slots (names : List String) (least : Nat) :
    Json → Option (List (Option Json))
  | .record members =>
    names.mapM fun name =>
      match members.filter fun member => member.1 = name with
      | [] => some none
      | [(_, value)] => some (some value)
      | _ => none
  | .list items =>
    if least ≤ items.length ∧ items.length ≤ names.length then
      some (items.map some
        ++ List.replicate (names.length - items.length) none)
    else none
  | _ => none

/-- The field values of a stored record. -/
def slotsOf? (names : List String) (least : Nat) (s : String) :
    Option (List (Option Json)) := do
  (← ofChars? (.fields names) s.toList).slots names least

/-- A natural number within 64 bits. -/
def natural? : Json → Option Nat
  | .integer (.ofNat n) => if n < Word.count then some n else none
  | _ => none

/-- A text. -/
def text? : Json → Option String
  | .text s => some s
  | _ => none

/-- A truth value. -/
def bool? : Json → Option Bool
  | .bool b => some b
  | _ => none

/-- A list of texts. -/
def texts? : Json → Option (List String)
  | .list items => items.mapM text?
  | _ => none

/-- The entries of a record of texts.  The last of repeated ones
counts. -/
def keyed? : Json → Option (Keyed String)
  | .record members => do
    let entries ← members.mapM fun (key, value) => do
      return (key, ← text? value)
    return Keyed.ofList entries
  | _ => none

/-- A value that may be null. -/
def orNull? {α : Type} (read : Json → Option α) : Json → Option (Option α)
  | .null => some none
  | value => some <$> read value

/-- The value of a field that has to be there. -/
def required {α : Type} (read : Json → Option α) :
    Option Json → Option α
  | some value => read value
  | none => none

/-- The value of a field that may be missing. -/
def optional {α : Type} (read : Json → Option α) (default : α) :
    Option Json → Option α
  | some value => read value
  | none => some default

end Rationale.Json
