import Rationale.Json.Reader
import Rationale.Word

/-!
# YAML integers

A scalar is a natural number if its text is one in base 16, 8, 2 or 10.
-/

namespace Rationale.Yaml

/-- The value of a digit in some base. -/
def digit? (base : Nat) (c : Char) : Option Nat :=
  match Json.hexValue? c with
  | some n => if n < base then some n else none
  | none => none

/-- The number of some digits in some base, if there is one at least and
it takes 64 bits at most. -/
def digits? (base : Nat) (digits : List Char) : Option Nat := do
  if digits.isEmpty then none
  else
    let n ← digits.foldlM (fun n c => do return n * base + (← digit? base c)) 0
    if n < Word.count then return n else none

/-- The natural number of a text.  It may have a plus sign and be written
in base 16, 8 or 2, and in base 10 without a leading zero. -/
def natural? (s : String) : Option Nat :=
  let unsigned :=
    match s.toList with
    | '+' :: rest => rest
    | rest => rest
  match unsigned with
  | '0' :: 'x' :: rest => digits? 16 rest
  | '0' :: 'o' :: rest => digits? 8 rest
  | '0' :: 'b' :: rest => digits? 2 rest
  | ['0'] => some 0
  | '0' :: _ => none
  | rest => digits? 10 rest

end Rationale.Yaml
