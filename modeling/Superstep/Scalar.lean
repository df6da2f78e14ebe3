/-!
# Scalars

Messages, relationship weights and floating-point vertex values are scalars. The engine only moves
them around; reducers and the bundled vertex programs calculate with them. `Scalar` lists what they
use, so that one definition serves both the double-precision numbers of a real run and an exact
domain, in which sums may be regrouped.
-/

namespace Superstep

/-- The arithmetic of messages, weights and floating-point vertex values. -/
class Scalar (α : Type) extends Add α, Sub α, Mul α, Div α where
  /-- The neutral element of addition, also the initial value of a slot without a default. -/
  zero : α
  /-- The neutral element of multiplication, also the weight of an unweighted relationship. -/
  one : α
  /-- Plus infinity: no scalar is greater. -/
  top : α
  /-- Minus infinity: no scalar is less. -/
  bottom : α
  /-- Whether the first scalar is strictly less than the second. -/
  less : α → α → Bool
  /-- The lesser of two scalars. -/
  min : α → α → α
  /-- The greater of two scalars. -/
  max : α → α → α
  /-- The scalar closest to a count. -/
  ofNat : Nat → α
  /-- The scalar closest to an integer. -/
  ofLong : Int64 → α
  /-- The integer part, clamped to the range of 64-bit integers. -/
  toLong : α → Int64

namespace Scalar

variable {α : Type} [Scalar α]

/-- The sum of a list, added up from the left. -/
def sum (xs : List α) : α := xs.foldl (· + ·) zero

/-- The least element of a list, or `top` if it is empty. -/
def least (xs : List α) : α := xs.foldl min top

end Scalar

/-- The lesser of two doubles. An operand that is not a number gives way to the other one. -/
def Double.min (a b : Float) : Float :=
  if a.isNaN then b else if b < a then b else a

/-- The greater of two doubles. An operand that is not a number gives way to the other one. -/
def Double.max (a b : Float) : Float :=
  if a.isNaN then b else if a < b then b else a

/-- Double-precision arithmetic. Conversion to an integer drops the fraction and clamps to the
64-bit range; what is not a number becomes zero. -/
instance : Scalar Float where
  zero := 0.0
  one := 1.0
  top := 1.0 / 0.0
  bottom := -1.0 / 0.0
  less a b := a < b
  min := Double.min
  max := Double.max
  ofNat n := n.toUInt64.toFloat
  ofLong i := i.toFloat
  toLong x := x.toInt64

end Superstep
