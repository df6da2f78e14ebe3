/-!
# Machine words

Counts, vertices and ids that a caller writes down fit an unsigned 64-bit word, and integer values a
signed one. Inside the library counts are natural numbers without a bound; the limits matter where
numbers are read.
-/

namespace Superstep

/-- One more than the largest 64-bit word, `2 ^ 64`. -/
def wordLimit : Nat := 18446744073709551616

/-- One more than the largest signed 64-bit word, `2 ^ 63`. -/
def longLimit : Nat := 9223372036854775808

end Superstep
