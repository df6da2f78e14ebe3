import Superstep.Scalar

/-!
# A total order on doubles, and digests

Messages arrive in no particular order, so what is reported of them is sorted. The order is total:
minus zero comes before plus zero, and what is not a number comes last and counts as one value.

A digest stands for a long list of 64-bit words in a report: equal lists have equal digests.

Both are for reports on a run and for scripts. The engine uses neither, and no theorem is about them.
-/

namespace Superstep

namespace Double

/-- The bits of a double, with one pattern for everything that is not a number. -/
def canonicalBits (x : Float) : UInt64 := if x.isNaN then 0x7FF8000000000000 else x.toBits

/-- A double with one representative for everything that is not a number. -/
def canonical (x : Float) : Float := Float.ofBits (canonicalBits x)

/-- The place of a double in the total order. Doubles with a sign come first, the larger ones in
front. -/
def rank (x : Float) : UInt64 :=
  let bits := canonicalBits x
  -- with a sign, larger bits mean a lesser number
  if bits &&& 0x8000000000000000 = 0 then bits ||| 0x8000000000000000 else ~~~bits

/-- Doubles in ascending order. -/
def sorted (xs : List Float) : List Float :=
  (xs.map canonical).mergeSort fun a b => decide (rank a ≤ rank b)

end Double

namespace Digest

/-- The digest of no words. -/
def seed : UInt64 := 14695981039346656037

/-- The digest after one more word. -/
def push (h word : UInt64) : UInt64 := (h ^^^ word) * 1099511628211

/-- The digest of words. -/
def ofWords (words : List UInt64) : UInt64 := words.foldl push seed

end Digest

end Superstep
