import Rationale.Keyed
import Rationale.Operator

/-!
# Errors

There are three kinds of error.  A construction error refuses input while
a specification or a result is built, an evaluation error reports a
callback that failed, and a storage error reports stored text that cannot
be read.  Each is a cause: `Fault`, `Failure` and `StorageFault` say what
went wrong, and `Error.detail` puts it into words.

A callback raises a `Raised`.  `Error.ofRaised` makes an error of it at
the place where the callback was invoked.  A callback that passes on an
error passes it on unchanged.  Anything else that it raises becomes the
cause of a failure and is kept as a whole, so that `Error.sources` lists
what it rests on as well.
-/

namespace Rationale

/-! ## The wording of an error -/

/-- What is known about an error. -/
structure Detail where
  /-- A stable code for machines. -/
  code : String
  /-- A sentence for people. -/
  message : String
  /-- Named facts about the error. -/
  context : Keyed String := ∅
  /-- What may help. -/
  hint : Option String := none
deriving DecidableEq

namespace Detail

/-- Adds a named fact. -/
def withContext (d : Detail) (key value : String) : Detail :=
  { d with context := d.context.insert key value }

/-- Sets the hint. -/
def withHint (d : Detail) (hint : String) : Detail :=
  { d with hint := some hint }

/-- The named facts on one line, or nothing if there are none. -/
def contextText (d : Detail) : String :=
  match d.context.entries with
  | [] => ""
  | entries =>
    " | context: ["
      ++ ", ".intercalate (entries.map fun (key, value) => key ++ "=" ++ value)
      ++ "]"

/-- The hint, or nothing if there is none. -/
def hintText (d : Detail) : String :=
  match d.hint with
  | some hint => " | hint: " ++ hint
  | none => ""

/-- The error on one line. -/
def text (d : Detail) : String :=
  d.message ++ " (code: " ++ d.code ++ ")" ++ d.contextText ++ d.hintText

end Detail

/-! ## The roles of callbacks -/

/-- The part that a callback plays in a specification. -/
inductive Role where
  /-- Decides whether the specification is satisfied. -/
  | predicate
  /-- Makes the values of the satisfied branch. -/
  | whenTrue
  /-- Makes the values of the unsatisfied branch. -/
  | whenFalse
deriving DecidableEq, Repr

namespace Role

/-- The name of the role in messages. -/
def name : Role → String
  | .predicate => "predicate"
  | .whenTrue => "WhenTrue"
  | .whenFalse => "WhenFalse"

/-- The role of the callback that makes the values of an outcome. -/
def ofOutcome (satisfied : Bool) : Role :=
  if satisfied then .whenTrue else .whenFalse

/-- The code of a failure in this role. -/
def failureCode : Role → String
  | .predicate => "predicate-failed"
  | .whenTrue => "when-true-failed"
  | .whenFalse => "when-false-failed"

end Role

/-! ## Construction -/

/-- Why something was not built. -/
inductive Fault where
  /-- A statement holds nothing but white space. -/
  | emptyStatement
  /-- A fixed assertion holds nothing but white space. -/
  | emptyAssertion (statement : String)
  /-- A factory asks for an underlying result that there never is. -/
  | unsupportedFactory (statement : String)
  /-- A default statement was asked for where there is no fixed text. -/
  | missingStatement
  /-- A policy branch may yield several values. -/
  | multiValuedPolicy
  /-- A quantifier has no factory for one branch. -/
  | missingFactory (statement : String) (role : Role)
  /-- An operator was given no operand. -/
  | missingOperand (op : Operator)
  /-- An operator was given a number of operands that it does not take. -/
  | invalidArity (op : Operator) (operands : Nat)
  /-- A cause lies outside the underlying results. -/
  | invalidCause (index underlying : Nat)
  /-- A fault found by a callback. -/
  | custom (detail : Detail)
deriving DecidableEq

/-- A fault in words. -/
def Fault.detail : Fault → Detail
  | .emptyStatement =>
    { code := "empty-statement", message := "statement must not be empty" }
  | .emptyAssertion statement =>
    ({ code := "empty-assertion", message := "assertion must not be empty" }
        : Detail)
      |>.withContext "statement" statement
  | .unsupportedFactory statement =>
    ({ code := "unsupported-factory"
       message := "a boolean predicate has no underlying result to pass to a factory" }
        : Detail)
      |>.withContext "statement" statement
      |>.withHint "use Spec::from_spec or Spec::from_result_fn to wrap a result"
  | .missingStatement =>
    { code := "missing-statement"
      message := "a default statement requires a constant textual true assertion" }
  | .multiValuedPolicy =>
    { code := "multi-valued-policy"
      message := "policy factories must each yield exactly one value" }
  | .missingFactory statement role =>
    ({ code := "missing-factory"
       message := "quantifier specification is missing a factory" } : Detail)
      |>.withContext "statement" statement
      |>.withContext "role" role.name
      |>.withHint "supply both when_true and when_false, or use string metadata"
  | .missingOperand op =>
    { code := "missing-operand"
      message := op.keyword ++ " requires at least one operand" }
  | .invalidArity op operands =>
    ({ code := "invalid-arity"
       message := "operator applied to the wrong number of operands" } : Detail)
      |>.withContext "operator" op.keyword
      |>.withContext "operands" (toString operands)
  | .invalidCause index underlying =>
    ({ code := "invalid-cause"
       message := "cause index outside the underlying results" } : Detail)
      |>.withContext "index" (toString index)
      |>.withContext "underlying" (toString underlying)
  | .custom detail => detail

/-! ## Storage -/

/-- Why stored text was not read. -/
inductive StorageFault where
  /-- The text is no notation in JSON. -/
  | notationJson
  /-- The text is no notation in YAML. -/
  | notationYaml
  /-- A file could not be read as text. -/
  | notationRead (path : String)
  /-- A file's extension names no known format. -/
  | notationFormat (path : String) (extension : Option String)
  /-- The text is no report in JSON. -/
  | reportJson
  /-- A fault found elsewhere. -/
  | custom (detail : Detail)
deriving DecidableEq

/-- A storage fault in words. -/
def StorageFault.detail : StorageFault → Detail
  | .notationJson =>
    { code := "notation-json", message := "the text is no notation" }
  | .notationYaml =>
    { code := "notation-yaml", message := "the text is no notation" }
  | .notationRead path =>
    ({ code := "notation-read", message := "the file is no readable text" }
        : Detail)
      |>.withContext "path" path
  | .notationFormat path extension =>
    ({ code := "notation-format"
       message := "unsupported notation file extension" } : Detail)
      |>.withContext "path" path
      |>.withContext "extension" (extension.getD "")
      |>.withHint "use a .json, .yaml or .yml file"
  | .reportJson =>
    { code := "report-deserialize", message := "the text is no report" }
  | .custom detail => detail

/-! ## Errors -/

mutual

/-- A callback failed, in some role of the specification with some
statement. -/
structure Failure where
  /-- The statement of the specification that owns the callback. -/
  statement : String
  /-- The part that the callback plays there. -/
  role : Role
  /-- What the callback raised. -/
  raised : Raised
deriving DecidableEq

/-- Everything that can go wrong. -/
inductive Error where
  /-- Something was not built. -/
  | construction (fault : Fault)
  /-- A callback failed. -/
  | evaluation (failure : Failure)
  /-- Stored text was not read. -/
  | storage (fault : StorageFault)
deriving DecidableEq

/-- What a callback raises. -/
inductive Raised where
  /-- An error of its own. -/
  | plain (text : String)
  /-- An error of its own that names another one as its source. -/
  | caused (text : String) (source : Raised)
  /-- A failure by itself, outside of any error. -/
  | failure (failure : Failure)
  /-- An error that it passes on. -/
  | error (error : Error)
deriving DecidableEq

end

/-- A text is an error of its own. -/
instance : Coe String Raised := ⟨.plain⟩

/-- The name of the kind of the error. -/
def Error.kind : Error → String
  | .construction _ => "construction"
  | .evaluation _ => "evaluation"
  | .storage _ => "serde"

/-! ## Errors in words -/

mutual

/-- A failure in words, with the text of what was raised. -/
def Failure.detail : Failure → Detail
  | ⟨statement, role, raised⟩ =>
    let message :=
      "the " ++ role.name ++ " of '" ++ statement ++ "' failed: "
        ++ raised.text
    ({ code := role.failureCode, message := message } : Detail)
      |>.withContext "statement" statement
      |>.withContext "role" role.name

/-- The error in words. -/
def Error.detail : Error → Detail
  | .construction fault => fault.detail
  | .evaluation f => f.detail
  | .storage fault => fault.detail

/-- What was raised, on one line. -/
def Raised.text : Raised → String
  | .plain text | .caused text _ => text
  | .failure f => f.detail.text
  | .error e => e.kind ++ " error: " ++ e.detail.text

end

/-- The text of what the callback raised. -/
def Failure.cause (f : Failure) : String := f.raised.text

/-- The error on one line. -/
def Error.text (e : Error) : String := (Raised.error e).text

/-! ## Sources -/

mutual

/-- What is behind a failure, outermost first. -/
def Failure.sources : Failure → List Raised
  | ⟨_, _, raised⟩ => raised :: raised.sources

/-- What is behind an error, outermost first. -/
def Error.sources : Error → List Raised
  | .evaluation f => .failure f :: f.sources
  | .construction _ | .storage _ => []

/-- What is behind something that was raised, outermost first. -/
def Raised.sources : Raised → List Raised
  | .plain _ => []
  | .caused _ source => source :: source.sources
  | .failure f => f.sources
  | .error e => e.sources

end

namespace Error

/-- The texts of what is behind the error, outermost first. -/
def chain (e : Error) : List String := e.sources.map Raised.text

/-- The error of a callback that raised something: a failure of the
callback, unless what it raised is an error already. -/
def ofRaised (statement : String) (role : Role) : Raised → Error
  | .error e => e
  | raised => .evaluation ⟨statement, role, raised⟩

end Error

end Rationale
