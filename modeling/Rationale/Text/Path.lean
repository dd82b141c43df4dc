/-!
# File names

The extension of a file is what stands behind the last dot of its name.
A name without a dot has none, and neither has a name whose only dot is
at its front, nor the name of the parent folder.
-/

namespace Rationale.Text

/-- The extension of a file name, if it has one. -/
def extension? (name : String) : Option String :=
  let reversed := name.toList.reverse
  let stem := (reversed.dropWhile (· ≠ '.')).drop 1
  if name = ".." ∨ stem.isEmpty then none
  else some (String.ofList (reversed.takeWhile (· ≠ '.')).reverse)

end Rationale.Text
