import Rationale.Error
import Rationale.Json.Fields
import Rationale.Json.Printer
import Rationale.Notation
import Rationale.Text.Path
import Rationale.Yaml.Integer
import Rationale.Yaml.Reader

/-!
# Stored notations

A notation is stored as JSON, and it is read from JSON, from YAML or from
a file, whose extension names the format.  A missing field has its usual
value.
-/

namespace Rationale.Notation

/-- The names of the fields, in order. -/
def fieldNames : List String :=
  ["indent", "not_symbol", "false_prefix", "assertion_separator"]

/-! ## JSON -/

/-- The notation as JSON. -/
def toJson (n : Notation) : Json :=
  .record
    [("indent", .integer n.indent),
      ("not_symbol", .text n.notSymbol),
      ("false_prefix", .text n.falsePrefix),
      ("assertion_separator", .text n.assertionSeparator)]

/-- The notation as it is stored. -/
def toText (n : Notation) : String := n.toJson.indentedText

/-- The notation of the values of its fields. -/
def ofSlots? : List (Option Json) → Option Notation
  | [indent, notSymbol, falsePrefix, assertionSeparator] => do
    let usual : Notation := {}
    return {
      indent := ← Json.optional Json.natural? usual.indent indent
      notSymbol := ← Json.optional Json.text? usual.notSymbol notSymbol
      falsePrefix := ← Json.optional Json.text? usual.falsePrefix falsePrefix
      assertionSeparator :=
        ← Json.optional Json.text? usual.assertionSeparator
          assertionSeparator }
  | _ => none

/-- The notation that was stored as JSON. -/
def ofJsonText (s : String) : Except Error Notation :=
  match (Json.slotsOf? fieldNames 0 s).bind ofSlots? with
  | some n => .ok n
  | none => .error (.storage .notationJson)

/-! ## YAML -/

/-- The number of a scalar, if it is plain, or if it is literal and its tag
says that it is an integer. -/
def yamlNumber? : Yaml → Option Nat
  | .scalar .plain _ text => Yaml.natural? text
  | .scalar .literal (some "tag:yaml.org,2002:int") text => Yaml.natural? text
  | _ => none

/-- The text of any scalar. -/
def yamlText? : Yaml → Option String
  | .scalar _ _ text => some text
  | _ => none

/-- The value of a field among the entries of a mapping.  The field may
be missing, and it may not be repeated. -/
def yamlField? {α : Type} (read : Yaml → Option α) (default : α)
    (name : String) (entries : List (String × Yaml)) : Option α :=
  match entries.filter fun entry => entry.1 = name with
  | [] => some default
  | [(_, value)] => read value
  | _ => none

/-- The notation of the entries of a mapping. -/
def ofEntries? (entries : List (String × Yaml)) : Option Notation := do
  let usual : Notation := {}
  return {
    indent := ← yamlField? yamlNumber? usual.indent "indent" entries
    notSymbol := ← yamlField? yamlText? usual.notSymbol "not_symbol" entries
    falsePrefix :=
      ← yamlField? yamlText? usual.falsePrefix "false_prefix" entries
    assertionSeparator :=
      ← yamlField? yamlText? usual.assertionSeparator "assertion_separator"
        entries }

/-- The notation of a YAML document, which is a mapping whose keys are
scalars, or nothing. -/
def ofDocument? : Yaml.Document → Option Notation
  | .empty => some {}
  | .node root =>
    match root.resolve root with
    | .scalar .plain _ "" => some {}
    | .mapping entries => do
      let entries ← entries.mapM fun (key, value) => do
        return (← yamlText? (root.resolve key), root.resolve value)
      ofEntries? entries
    | _ => none

/-- The notation that was stored as YAML. -/
def ofYamlText (s : String) : Except Error Notation :=
  match (Yaml.ofText? s).bind ofDocument? with
  | some n => .ok n
  | none => .error (.storage .notationYaml)

/-! ## Files -/

/-- The notation in a file with the given path, name and contents.  There
are no contents if the file cannot be read as text. -/
def ofFile (path name : String) (contents : Option String) :
    Except Error Notation :=
  match contents with
  | none => .error (.storage (.notationRead path))
  | some s =>
    match Text.extension? name with
    | some "json" => ofJsonText s
    | some "yaml" | some "yml" => ofYamlText s
    | other => .error (.storage (.notationFormat path other))

end Rationale.Notation
