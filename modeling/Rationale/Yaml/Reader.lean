import Rationale.Yaml.Layout

/-!
# Reading YAML

The tokens of a document are read into its node.  The readers of nodes take
fuel, and `ofText?` supplies enough for any text.

A key that is known by its colon has the mark of a key in front of it among
the tokens, so here all keys look alike.
-/

namespace Rationale.Yaml

/-- What a text holds. -/
inductive Document where
  /-- No node. -/
  | empty
  /-- One node. -/
  | node (node : Yaml)

/-! ## Sources -/

/-- What is left to read of a document, and what its names mean. -/
structure Source where
  /-- The tokens that are left. -/
  tokens : List Token
  /-- The handles for tags, with the texts they stand for. -/
  handles : List (String × String) := []
  /-- The names of anchors, with the anchors. -/
  names : List (String × Nat) := []

/-- A reader of tokens. -/
abbrev Reader (α : Type) := StateT Source Option α

/-- The next token, which stays.  There is none at the end. -/
def peek : Reader (Option Token) := do return (← get).tokens.head?

/-- Skips the next token. -/
def skip : Reader Unit := modify fun s => { s with tokens := s.tokens.tail }

/-- Skips the next token if it is a given one, and tells whether it is. -/
def skipIf (t : Token) : Reader Bool := do
  if (← peek) = some t then
    skip
    return true
  else return false

/-- Skips the comma in front of an item that is not the first one, and
tells whether the item may follow. -/
def separated (first : Bool) : Reader Bool :=
  if first then pure true else skipIf .comma

/-- Whether the next token is one of some. -/
def peekIn (ts : List Token) : Reader Bool := do
  return (← peek).any fun t => t ∈ ts

/-! ## Names and tags -/

/-- The anchor of a name that is given here: the number of different names
before it.  A name that is given again gets a new anchor, which the next new
name then takes over. -/
def newAnchor (name : String) : Reader Nat := do
  let s ← get
  let anchor := s.names.length
  let others := s.names.filter fun entry => entry.1 ≠ name
  set { s with names := (name, anchor) :: others }
  return anchor

/-- The anchor of a name that stands for a node. -/
def anchorOf (name : String) : Reader Nat := do
  match (← get).names.lookup name with
  | some anchor => return anchor
  | none => failure

/-- A tag in full.  Without a handle it is in full already. -/
def fullTag (handle rest : String) : Reader String := do
  if handle.isEmpty then return rest
  else
    match (← get).handles.lookup handle with
    | some meaning => return meaning ++ rest
    | none => failure

/-- Reads an anchor, if one is next. -/
def readAnchorName : Reader (Option String) := do
  match ← peek with
  | some (.anchor name) =>
    skip
    return some name
  | _ => return none

/-- Reads a tag, if one is next. -/
def readFullTag : Reader (Option String) := do
  match ← peek with
  | some (.tag handle rest) =>
    skip
    return some (← fullTag handle rest)
  | _ => return none

/-- Reads an anchor and a tag, in either order, if they are next. -/
def readProperties : Reader (Option String × Option String) := do
  match ← readAnchorName with
  | some name => return (some name, ← readFullTag)
  | none =>
    let tag ← readFullTag
    if tag.isSome then return (← readAnchorName, tag) else return (none, none)

/-! ## Nodes -/

/-- Where a node stands, which decides what it may be. -/
inductive Place where
  /-- In brackets or braces, where no block collection may stand. -/
  | flow
  /-- Behind a dash or at the start of a document. -/
  | block
  /-- In a block mapping, where dashes may stand in its own column. -/
  | entry
deriving DecidableEq, Repr

/-- An empty node, which may stand only behind an anchor or a tag. -/
def emptyNode (marked : Bool) (tag : Option String) : Reader Yaml :=
  if marked then pure (.scalar .plain tag "") else failure

mutual

/-- Reads a node with its anchor and its tag, or a reference. -/
def readNode : Nat → Place → Reader Yaml
  | 0, _ => failure
  | fuel + 1, place => do
    match ← peek with
    | some (.alias name) =>
      skip
      return .reference (← anchorOf name)
    | _ =>
      let (name, tag) ← readProperties
      match name with
      | some name =>
        let anchor ← newAnchor name
        return .anchored anchor (← readBare fuel place true tag)
      | none => readBare fuel place tag.isSome tag

/-- Reads a node behind its anchor and its tag.  It is `marked` if it has
either. -/
def readBare : Nat → Place → Bool → Option String → Reader Yaml
  | 0, _, _, _ => failure
  | fuel + 1, place, marked, tag => do
    match ← peek with
    | some (.scalar style text) =>
      skip
      return .scalar style tag text
    | some .flowList =>
      skip
      return .list (← readFlowItems fuel true)
    | some .flowMapping =>
      skip
      return .mapping (← readFlowEntries fuel true)
    | some .dash =>
      if place = .entry then
        return .list (← readItems fuel [.dash, .key, .value, .blockEnd])
      else emptyNode marked tag
    | some .blockList =>
      if place = .flow then emptyNode marked tag
      else
        skip
        let items ← readItems fuel [.dash, .blockEnd]
        if ← skipIf .blockEnd then return .list items else failure
    | some .blockMapping =>
      if place = .flow then emptyNode marked tag
      else
        skip
        return .mapping (← readEntries fuel)
    | _ => emptyNode marked tag

/-- Reads the items behind dashes.  In front of one of the tokens `ends` an
item is empty. -/
def readItems : Nat → List Token → Reader (List Yaml)
  | 0, _ => failure
  | fuel + 1, ends => do
    if ← skipIf .dash then
      let item ← if ← peekIn ends then pure nothing else readNode fuel .block
      return item :: (← readItems fuel ends)
    else return []

/-- Reads a key or a value of a block mapping, which may be empty. -/
def readPart : Nat → Reader Yaml
  | 0 => failure
  | fuel + 1 => do
    if ← peekIn [.key, .value, .blockEnd] then return nothing
    else readNode fuel .entry

/-- Reads the entries of a block mapping up to its end. -/
def readEntries : Nat → Reader (List (Yaml × Yaml))
  | 0 => failure
  | fuel + 1 => do
    if ← skipIf .blockEnd then return []
    else if ← skipIf .key then
      let key ← readPart fuel
      let value ← if ← skipIf .value then readPart fuel else pure nothing
      return (key, value) :: (← readEntries fuel)
    else failure

/-- Reads the value behind a key in brackets or braces, which the token
`last` closes.  The colon may be missing, and so may the value. -/
def readFlowValue : Nat → Token → Reader Yaml
  | 0, _ => failure
  | fuel + 1, last => do
    if ← skipIf .value then
      if ← peekIn [.comma, last] then return nothing else readNode fuel .flow
    else return nothing

/-- Reads the items in brackets up to the closing one.  An item with the
mark of a key is a mapping with one entry.  Its key may be empty, and then
the token behind the mark is skipped. -/
def readFlowItems : Nat → Bool → Reader (List Yaml)
  | 0, _ => failure
  | fuel + 1, first => do
    if ← skipIf .flowListEnd then return []
    else if ← separated first then
      if ← skipIf .key then
        let empty ← peekIn [.value, .comma, .flowListEnd]
        let key ← if empty then skip *> pure nothing else readNode fuel .flow
        let value ← readFlowValue fuel .flowListEnd
        return .mapping [(key, value)] :: (← readFlowItems fuel false)
      else if ← skipIf .flowListEnd then return []
      else
        let item ← readNode fuel .flow
        return item :: (← readFlowItems fuel false)
    else failure

/-- Reads the entries in braces up to the closing one.  A node without the
mark of a key has no value. -/
def readFlowEntries : Nat → Bool → Reader (List (Yaml × Yaml))
  | 0, _ => failure
  | fuel + 1, first => do
    if ← skipIf .flowMappingEnd then return []
    else if ← separated first then
      if ← skipIf .key then
        let empty ← peekIn [.value, .comma, .flowMappingEnd]
        let key ← if empty then pure nothing else readNode fuel .flow
        let value ← readFlowValue fuel .flowMappingEnd
        return (key, value) :: (← readFlowEntries fuel false)
      else if ← skipIf .flowMappingEnd then return []
      else
        let key ← readNode fuel .flow
        return (key, nothing) :: (← readFlowEntries fuel false)
    else failure

end

/-! ## Documents -/

/-- The handles that need no directive. -/
def usualHandles : List (String × String) :=
  [("!", "!"), ("!!", "tag:yaml.org,2002:")]

/-- Reads directives up to the start of the document.  Each may be given
once, and the version is 1.1 or 1.2. -/
def readDirectives : Nat → Bool → Reader Unit
  | 0, _ => failure
  | fuel + 1, versionGiven => do
    match ← peek with
    | some (.version major minor) =>
      if versionGiven || major ≠ 1 || (minor ≠ 1 && minor ≠ 2) then failure
      else
        skip
        readDirectives fuel true
    | some (.handle name meaning) =>
      let s ← get
      if (s.handles.lookup name).isSome then failure
      else
        set { s with handles := (name, meaning) :: s.handles }
        skip
        readDirectives fuel versionGiven
    | some .documentStart => skip
    | _ => failure

/-- Whether the content of a document ends here. -/
def contentEnds : Reader Bool := do
  match ← peek with
  | none | some .documentStart | some .documentEnd => return true
  | some (.version _ _) | some (.handle _ _) => return true
  | _ => return false

/-- Reads the one document of a text. -/
def readDocument (fuel : Nat) : Reader Document := do
  match ← peek with
  | none => return .empty
  | some .documentStart | some (.version _ _) | some (.handle _ _) =>
    readDirectives fuel false
    modify fun s => { s with handles := s.handles ++ usualHandles }
    if ← contentEnds then return .node nothing
    else return .node (← readNode fuel .block)
  | _ =>
    modify fun s => { s with handles := usualHandles }
    return .node (← readNode fuel .block)

/-- The one document that a text holds.  Only ends of a document follow
it. -/
def ofText? (s : String) : Option Document := do
  let tokens ← Token.ofText? s
  let (document, source) ← (readDocument (4 * tokens.length + 4)).run { tokens }
  if source.tokens.all fun t => t = .documentEnd then return document else none

end Rationale.Yaml
