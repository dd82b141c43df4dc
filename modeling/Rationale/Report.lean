import Rationale.Description
import Rationale.Json.Fields
import Rationale.Json.Printer
import Rationale.Sha256

/-!
# Reports

A report is the record of one decision.  It holds the description of a
result and a digest over everything else in it, so a change to the record
is noticed.  `Report.verify` compares the digest with the contents.

A report is stored as JSON.
-/

namespace Rationale

/-- The record of one decision. -/
structure Report where
  /-- The statement of the specification. -/
  statement : String
  /-- The outcome. -/
  satisfied : Bool
  /-- The causal summary, on one line. -/
  reason : String
  /-- The assertions that explain the outcome. -/
  assertions : List String
  /-- The number of causes of the result. -/
  causalOperandCount : Nat
  /-- The lines of the justification. -/
  justification : List String
  /-- The digest over all other fields, in hexadecimal. -/
  digest : String
deriving DecidableEq, Repr

namespace Report

/-! ## Digests -/

/-- The report as JSON. -/
def toJson (p : Report) : Json :=
  .record
    [("statement", .text p.statement),
      ("satisfied", .bool p.satisfied),
      ("reason", .text p.reason),
      ("assertions", .list (p.assertions.map .text)),
      ("causal_operand_count", .integer p.causalOperandCount),
      ("justification", .list (p.justification.map .text)),
      ("digest", .text p.digest)]

/-- The text that is hashed: the canonical text of the report without its
digest. -/
def hashedText (p : Report) : String :=
  { p with digest := "" }.toJson.canonicalText

/-- The digest that the contents of the report have. -/
def hash (p : Report) : String := Sha256.hexDigest p.hashedText

/-- Whether the digest is that of the contents. -/
def verify (p : Report) : Bool := p.hash = p.digest

/-- The report without its digest. -/
def unstamped {τ : Type} [DecidableEq τ] (r : Result τ) : Report :=
  let d := r.description
  { statement := d.statement
    satisfied := r.satisfied
    reason := d.reason
    assertions := r.assertions
    causalOperandCount := d.causalOperandCount
    justification := d.justificationLines
    digest := "" }

/-- The report of a result, with its digest. -/
def ofResult {τ : Type} [DecidableEq τ] (r : Result τ) : Report :=
  { unstamped r with digest := (unstamped r).hash }

/-! ## Storage -/

/-- The report as it is stored. -/
def toText (p : Report) : String := p.toJson.indentedText

/-- The names of the fields, in order. -/
def fieldNames : List String :=
  ["statement", "satisfied", "reason", "assertions", "causal_operand_count",
    "justification", "digest"]

/-- The report of the values of its fields.  Only the digest may be
missing. -/
def ofSlots? : List (Option Json) → Option Report
  | [statement, satisfied, reason, assertions, count, justification,
      digest] => do
    return {
      statement := ← Json.required Json.text? statement
      satisfied := ← Json.required Json.bool? satisfied
      reason := ← Json.required Json.text? reason
      assertions := ← Json.required Json.texts? assertions
      causalOperandCount := ← Json.required Json.natural? count
      justification := ← Json.required Json.texts? justification
      digest := ← Json.optional Json.text? "" digest }
  | _ => none

/-- The report that was stored as a text. -/
def ofText (s : String) : Except Error Report :=
  match (Json.slotsOf? fieldNames 6 s).bind ofSlots? with
  | some p => .ok p
  | none => .error (.storage .reportJson)

end Report

end Rationale
