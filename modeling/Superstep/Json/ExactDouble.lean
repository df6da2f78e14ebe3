import Superstep.Json.Reader

/-!
# Doubles written exactly

JSON has no infinities, no numbers that are not numbers, and only decimals. Where every bit of a
double counts it is written as a text: sixteen hexadecimal digits for its bits, or a name. On input
plain numbers are accepted too.

Reports on a run and scripts are written this way. The engine's own settings are not, and no theorem
is about it.
-/

namespace Superstep.Json

/-- A 64-bit word as sixteen hexadecimal digits. -/
def ofWordBits (w : UInt64) : Json :=
  let digits := Nat.toDigits 16 w.toNat
  .text (String.ofList (List.replicate (16 - digits.length) '0' ++ digits))

/-- The bits of a double. Everything that is not a number has one name. -/
def ofExactDouble (x : Float) : Json := if x.isNaN then .text "nan" else ofWordBits x.toBits

/-- The double that a text stands for. -/
def exactDouble? (s : String) : Option Float :=
  if s = "inf" then some (1.0 / 0.0)
  else if s = "-inf" then some (-1.0 / 0.0)
  else if s = "nan" then some (0.0 / 0.0)
  else if s.length = 16 then (hexNumber? s.toList).map fun n => Float.ofBits n.toUInt64
  else none

/-- The double that a number or a text stands for. A number is rounded to the nearest double. -/
def toExactDouble? : Json → Option Float
  | .number n => some n.nearest
  | .string (some s) => exactDouble? s
  | _ => none

end Superstep.Json
