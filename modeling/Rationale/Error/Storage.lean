import Rationale.Error
import Rationale.Json.Fields
import Rationale.Json.Printer

/-!
# Stored error details

The details of an error are stored as JSON.  A hint that there is not is
left out, and the named facts are in key order.
-/

namespace Rationale.Detail

/-- The details as JSON. -/
def toJson (d : Detail) : Json :=
  let hint :=
    match d.hint with
    | some hint => [("hint", Json.text hint)]
    | none => []
  .record
    ([("code", .text d.code),
      ("message", .text d.message),
      ("context",
        .record (d.context.entries.map fun (key, value) => (key, .text value)))]
      ++ hint)

/-- The details as they are stored. -/
def toText (d : Detail) : String := d.toJson.compactText

/-- The names of the fields, in order. -/
def fieldNames : List String := ["code", "message", "context", "hint"]

/-- The details of the values of their fields.  There may be no context
and no hint. -/
def ofSlots? : List (Option Json) → Option Detail
  | [code, message, context, hint] => do
    return {
      code := ← Json.required Json.text? code
      message := ← Json.required Json.text? message
      context := ← Json.optional Json.keyed? ∅ context
      hint := ← Json.optional (Json.orNull? Json.text?) none hint }
  | _ => none

/-- The details that were stored as a text. -/
def ofText? (s : String) : Option Detail :=
  (Json.slotsOf? fieldNames 4 s).bind ofSlots?

end Rationale.Detail
