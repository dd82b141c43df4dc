import Rationale.Keyed

/-!
# JSON values

A value is kept as it was written: the members of a record stay in order
and may repeat a key.  `sorted` is the value in canonical order, with
members by ascending key and the last of repeated members, at every
depth.
-/

namespace Rationale

/-- A JSON value. -/
inductive Json where
  | null
  | bool (b : Bool)
  /-- A number written as an integer, within 64 bits. -/
  | integer (n : Int)
  /-- Any other number, as it was written. -/
  | decimal (written : String)
  | text (s : String)
  | list (items : List Json)
  | record (members : List (String × Json))

namespace Json

mutual

/-- The number of lists and records around the innermost value. -/
def depth : Json → Nat
  | .null | .bool _ | .integer _ | .decimal _ | .text _ => 0
  | .list items => depthItems items + 1
  | .record members => depthMembers members + 1

/-- The greatest depth of several values. -/
def depthItems : List Json → Nat
  | [] => 0
  | item :: items => max (depth item) (depthItems items)

/-- The greatest depth of the values of several members. -/
def depthMembers : List (String × Json) → Nat
  | [] => 0
  | (_, value) :: members => max (depth value) (depthMembers members)

end

mutual

/-- The value with its members in canonical order, at every depth. -/
def sorted : Json → Json
  | .null => .null
  | .bool b => .bool b
  | .integer n => .integer n
  | .decimal written => .decimal written
  | .text s => .text s
  | .list items => .list (sortedItems items)
  | .record members => .record (sortedMembers [] members)

/-- Several values in canonical order. -/
def sortedItems : List Json → List Json
  | [] => []
  | item :: items => sorted item :: sortedItems items

/-- Members put in order among members that are in order already. -/
def sortedMembers (before : List (String × Json)) :
    List (String × Json) → List (String × Json)
  | [] => before
  | (key, value) :: members =>
    sortedMembers (insertEntry key (sorted value) before) members

end

end Json

end Rationale
