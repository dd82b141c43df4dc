/-!
# Words

A stored count is a word, a natural number of 64 bits.  Integers with a
sign take as many bits, so the negative ones reach half as far.
-/

namespace Rationale.Word

/-- The number of words.  A natural number is a word when it is below. -/
def count : Nat := 0x10000000000000000

/-- The number of negative integers of 64 bits. -/
def half : Nat := 0x8000000000000000

end Rationale.Word
