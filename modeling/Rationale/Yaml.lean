/-!
# YAML nodes

A document in YAML is one node: a scalar, a list or a mapping.  A node may
carry an anchor, and a reference to that anchor stands for the node.

`Yaml.anchors` lists the anchored nodes of a document in order, and
`Yaml.resolve` gives the node that a reference stands for.
-/

namespace Rationale

/-- How a scalar is written. -/
inductive Yaml.Style where
  /-- Without marks around it. -/
  | plain
  /-- In quotation marks. -/
  | quoted
  /-- As the lines below a `|`. -/
  | literal
  /-- As the lines below a `>`. -/
  | folded
deriving DecidableEq, Repr

/-- A YAML node. -/
inductive Yaml where
  /-- A scalar, with its tag in full if it has one. -/
  | scalar (style : Yaml.Style) (tag : Option String) (text : String)
  | list (items : List Yaml)
  | mapping (entries : List (Yaml × Yaml))
  /-- A node with an anchor. -/
  | anchored (anchor : Nat) (node : Yaml)
  /-- A reference to an anchor. -/
  | reference (anchor : Nat)

namespace Yaml

/-- The node that stands where nothing is written. -/
def nothing : Yaml := .scalar .plain none ""

mutual

/-- The anchored nodes in a node, in the order in which they start. -/
def anchors : Yaml → List (Nat × Yaml)
  | .scalar _ _ _ | .reference _ => []
  | .list items => itemAnchors items
  | .mapping entries => entryAnchors entries
  | .anchored anchor node => (anchor, node) :: anchors node

/-- The anchored nodes in the items of a list. -/
def itemAnchors : List Yaml → List (Nat × Yaml)
  | [] => []
  | item :: items => anchors item ++ itemAnchors items

/-- The anchored nodes in the entries of a mapping. -/
def entryAnchors : List (Yaml × Yaml) → List (Nat × Yaml)
  | [] => []
  | (key, value) :: entries =>
    anchors key ++ anchors value ++ entryAnchors entries

end

/-- What a node of the document `root` stands for.  Of several nodes with
one anchor a reference stands for the last. -/
def resolve (root : Yaml) : Yaml → Yaml
  | .anchored _ node => node
  | .reference anchor => (root.anchors.reverse.lookup anchor).getD nothing
  | node => node

end Yaml

end Rationale
