import Superstep.Decimal.Shortest

/-!
# Writing doubles

How the digits of a double become text is a matter of format: `NumberLayout` says which numbers are
written out in full, and how a whole number ends. Digits are always the shortest ones.
-/

namespace Superstep

/-- A way to write doubles. -/
structure NumberLayout where
  /-- The exponents of the leading digit for which a number is written out in full: from the first
  one up to, but not including, the second. All exponents, if there is no range. -/
  positional : Option (Int × Int)
  /-- What follows the digits of a whole number that is written out in full. -/
  wholeSuffix : String
  deriving Repr, DecidableEq

namespace NumberLayout

/-- Whether a number with this leading exponent is written out in full. -/
def isPositional (l : NumberLayout) (leading : Int) : Bool :=
  match l.positional with
  | none => true
  | some (low, high) => decide (low ≤ leading) && decide (leading < high)

/-- Digits written out in full, where the leading one has the given exponent. -/
def writePositional (l : NumberLayout) (digits : List Char) (leading : Int) : String :=
  if leading < 0 then
    "0." ++ String.ofList (List.replicate (-leading - 1).toNat '0' ++ digits)
  else
    -- zeros fill up what the digits leave before the point
    let wholeDigits := leading.toNat + 1
    let whole := digits.take wholeDigits ++ List.replicate (wholeDigits - digits.length) '0'
    match digits.drop wholeDigits with
    | [] => String.ofList whole ++ l.wholeSuffix
    | fraction => String.ofList whole ++ "." ++ String.ofList fraction

/-- Digits written with an exponent, which always has a sign. -/
def writeScientific (digits : List Char) (leading : Int) : String :=
  let mantissa := match digits with
    | [] => "0"
    | [d] => String.ofList [d]
    | d :: rest => String.ofList [d] ++ "." ++ String.ofList rest
  mantissa ++ "e" ++ (if leading < 0 then "-" else "+") ++ toString leading.natAbs

/-- The text of a positive number. -/
def writeDigits (l : NumberLayout) (d : DecimalDigits) : String :=
  let digits := Nat.toDigits 10 d.digits
  let leading := d.exponent + (digits.length : Int) - 1
  if l.isPositional leading then l.writePositional digits leading
  else writeScientific digits leading

/-- The text of a finite double. -/
def writeFinite (l : NumberLayout) (x : Float) : String :=
  let bits := x.toBits
  -- all bits but the sign
  let magnitude := bits &&& 0x7FFFFFFFFFFFFFFF
  let sign := if bits = magnitude then "" else "-"
  if magnitude = 0 then sign ++ "0" ++ l.wholeSuffix
  else sign ++ l.writeDigits (Dyadic.ofBits magnitude).shortest

/-- Numbers written out in full whatever their size, whole ones without a point. -/
def plain : NumberLayout := ⟨none, ""⟩

/-- The text of any double in a message. -/
def plainText (x : Float) : String :=
  if x.isNaN then "NaN"
  else if x.isInf then (if x < 0.0 then "-inf" else "inf")
  else plain.writeFinite x

end NumberLayout

end Superstep
