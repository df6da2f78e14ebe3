import Superstep.Storage.PagedArray

/-!
# Arrays of words

The cells of arrays of integers and of scalars are 64-bit words, which several workers may write at
once. An integer is kept as its two's complement and a scalar in a word of its own. `performInWords`
answers requests as it is done with words: an integer is compared and added to as a word, and a
scalar is taken out of its word, changed and put back.
-/

namespace Superstep

/-- A way to keep values in words that gives every value back as it was, such as the bits of a
double. -/
structure WordCode (α : Type) where
  toWord : α → UInt64
  ofWord : UInt64 → α
  ofWord_toWord : ∀ x, ofWord (toWord x) = x

/-- An array of words. -/
abbrev WordArray := PagedArray UInt64

/-- Answers one request to an array of integers. -/
def LongArray.performInWords (words : WordArray) : Request → Except Violation Answer × WordArray
  | .size => (.ok (.size words.size), words)
  | .get i => ((words.read i).map fun w => .value w.toInt64, words)
  | .set i v => words.access i fun _ => (.done, v.toUInt64)
  | .swap i v => words.access i fun w => (.value w.toInt64, v.toUInt64)
  | .compareExchange i expected v => words.access i fun w =>
    if w = expected.toUInt64 then (.exchanged w.toInt64, v.toUInt64)
    else (.mismatch w.toInt64, w)
  | .add i d => words.access i fun w => (.value w.toInt64, w + d.toUInt64)
  | .fill v => (.ok .done, words.fill v.toUInt64)

/-- Answers one request to an array of scalars. -/
def ScalarArray.performInWords {α : Type} (code : WordCode α) (words : WordArray) :
    Request α → Except Violation (Answer α) × WordArray
  | .size => (.ok (.size words.size), words)
  | .get i => ((words.read i).map fun w => .value (code.ofWord w), words)
  | .set i v => words.access i fun _ => (.done, code.toWord v)
  | .update i f => words.access i fun w =>
    (.value (code.ofWord w), code.toWord (f (code.ofWord w)))
  | .fill v => (.ok .done, words.fill (code.toWord v))

end Superstep
