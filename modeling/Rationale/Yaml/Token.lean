import Rationale.Yaml

/-!
# YAML tokens

A document is a row of tokens: marks, names, scalars, and the starts and
ends of the collections that indentation makes.
-/

namespace Rationale.Yaml

/-- A token of a document. -/
inductive Token where
  /-- A version of YAML that the document asks for. -/
  | version (major minor : Nat)
  /-- A handle for tags, and the text it stands for. -/
  | handle (name meaning : String)
  | documentStart
  | documentEnd
  /-- A list of dashes starts. -/
  | blockList
  /-- A mapping starts that is not in braces. -/
  | blockMapping
  /-- A collection ends that is not in brackets. -/
  | blockEnd
  /-- A list in brackets starts. -/
  | flowList
  | flowListEnd
  /-- A mapping in braces starts. -/
  | flowMapping
  | flowMappingEnd
  | comma
  | dash
  | key
  | value
  | anchor (name : String)
  | alias (name : String)
  /-- A tag, cut behind its handle. -/
  | tag (handle rest : String)
  | scalar (style : Style) (text : String)
deriving DecidableEq, Repr

/-! ## Names -/

/-- Whether a character may stand in the name of an anchor or a handle. -/
def isNameChar (c : Char) : Bool := c.isAlphanum || c = '_' || c = '-'

end Rationale.Yaml
