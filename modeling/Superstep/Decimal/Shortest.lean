/-!
# Shortest decimals

A double stands for every real number that rounds to it. Its shortest decimal is the one with the
fewest digits among those numbers, and the closest to the double among the shortest.

`Dyadic` is the exact value of a finite double without its sign. `RoundingInterval` holds the reals
that round to it, and `RoundingInterval.hit?` looks for them on one decimal grid: if a grid point
lies in the interval, one of the two neighbours of the value on that grid does. `shortest` tries one
digit, two digits and so on; seventeen always suffice.
-/

namespace Superstep

/-- The value `significand * 2 ^ exponent` of a finite double, without its sign. -/
structure Dyadic where
  significand : Nat
  exponent : Int
  /-- Whether the next double below is only half as far away as the next one above. -/
  narrowBelow : Bool
  deriving Repr, DecidableEq

/-- The value of a finite double, without its sign. -/
def Dyadic.ofBits (bits : UInt64) : Dyadic :=
  let biased := ((bits >>> 52) &&& 0x7FF).toNat
  let fraction := (bits &&& 0xFFFFFFFFFFFFF).toNat
  -- the smallest doubles have no leading bit of their own
  if biased = 0 then ⟨fraction, -1074, false⟩
  else ⟨0x10000000000000 + fraction, (biased : Int) - 1075, fraction == 0 && biased != 1⟩

/-- The number `digits * 10 ^ exponent`. -/
structure DecimalDigits where
  digits : Nat
  exponent : Int
  deriving Repr, DecidableEq

/-- The reals that round to a double: from `low / unit` to `high / unit`, around `value / unit`. -/
structure RoundingInterval where
  low : Nat
  value : Nat
  high : Nat
  unit : Nat
  /-- Whether the ends round to the double too. -/
  closed : Bool
  deriving Repr, DecidableEq

/-- The reals that round to a value. The ends lie half way to its neighbours, and belong to the
interval exactly if the significand is even. -/
def Dyadic.interval (x : Dyadic) : RoundingInterval :=
  -- in quarters of the last place the ends are whole numbers, also when the gap below is narrow
  let low := 4 * x.significand - (if x.narrowBelow then 1 else 2)
  let high := 4 * x.significand + 2
  let up := Nat.pow 2 (x.exponent - 2).toNat
  let down := Nat.pow 2 (2 - x.exponent).toNat
  ⟨low * up, 4 * x.significand * up, high * up, down, x.significand % 2 == 0⟩

/-- Number of decimal digits of a number. -/
def digitCount (n : Nat) : Nat := if n < 10 then 1 else digitCount (n / 10) + 1
termination_by n

namespace RoundingInterval

/-- The exponent of the value's leading decimal digit. -/
def leadingExponent (i : RoundingInterval) : Int :=
  if i.unit ≤ i.value then (digitCount (i.value / i.unit) : Int) - 1
  else -(digitCount ((i.unit - 1) / i.value) : Int)

/-- Whether `numerator / unit` lies in the interval. -/
def contains (i : RoundingInterval) (numerator : Nat) : Bool :=
  if i.closed then decide (i.low ≤ numerator) && decide (numerator ≤ i.high)
  else decide (i.low < numerator) && decide (numerator < i.high)

/-- The interval in multiples of `10 ^ exponent`. -/
def scale (i : RoundingInterval) (exponent : Int) : RoundingInterval :=
  let up := Nat.pow 10 (-exponent).toNat
  ⟨i.low * up, i.value * up, i.high * up, i.unit * Nat.pow 10 exponent.toNat, i.closed⟩

/-- The multiple of `10 ^ exponent` in the interval that is closest to the value. Half way between
two, the even one counts as closer. -/
def hit? (i : RoundingInterval) (exponent : Int) : Option DecimalDigits :=
  let i := i.scale exponent
  let below := i.value / i.unit
  let above := below + 1
  -- the value lies between these two multiples, or on the lower one
  let toBelow := i.value - below * i.unit
  let toAbove := above * i.unit - i.value
  let belowIsCloser := decide (toBelow < toAbove) || (toBelow == toAbove && below % 2 == 0)
  match i.contains (below * i.unit), i.contains (above * i.unit) with
  | true, true => some ⟨if belowIsCloser then below else above, exponent⟩
  | true, false => some ⟨below, exponent⟩
  | false, true => some ⟨above, exponent⟩
  | false, false => none

end RoundingInterval

/-- The same number without zeros at the end. -/
def DecimalDigits.trim (d : DecimalDigits) : DecimalDigits :=
  if d.digits ≠ 0 ∧ d.digits % 10 = 0 then trim ⟨d.digits / 10, d.exponent + 1⟩ else d
termination_by d.digits
decreasing_by omega

/-- The shortest decimal of a value that is not zero. -/
def Dyadic.shortest (x : Dyadic) : DecimalDigits :=
  let i := x.interval
  let leading := i.leadingExponent
  let hit := (List.range 17).findSome? fun n : Nat => i.hit? (leading - (n : Int))
  (hit.getD ⟨0, 0⟩).trim

end Superstep
