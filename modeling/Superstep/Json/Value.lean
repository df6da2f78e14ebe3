import Superstep.Decimal.Layout
import Superstep.Decimal.Reading
import Superstep.Word

/-!
# JSON values

`Json` is a JSON text without its white space. Members of an object keep their order and may repeat
a key. Numbers keep their digits, so that no value is lost before it is known what it is for:
`JsonNumber` tells whole numbers, which have neither point nor exponent, from others.

A string may denote something that is not Unicode text, because an escape stands for half a
surrogate pair. Such a string is `none`.
-/

namespace Superstep

/-- A number as it is written. -/
structure JsonNumber where
  negative : Bool
  /-- The digits before the point. -/
  whole : Nat
  /-- The digits after the point; without digits there is no point. -/
  fraction : List Digit
  /-- The exponent, if there is one. -/
  exponent : Option Int
  deriving Repr, DecidableEq

/-- A JSON value. -/
inductive Json where
  | null
  | bool (b : Bool)
  | number (n : JsonNumber)
  | string (text : Option String)
  | array (items : List Json)
  | object (members : List (Option String × Json))
  deriving Repr, Inhabited

namespace JsonNumber

/-- A natural number. -/
def ofNat (n : Nat) : JsonNumber := ⟨false, n, [], none⟩

/-- An integer. -/
def ofInt (i : Int) : JsonNumber := ⟨decide (i < 0), i.natAbs, [], none⟩

/-- The integer that is written, if it is one. A zero with a minus sign is not. -/
def toInt? (n : JsonNumber) : Option Int :=
  if n.fraction.isEmpty ∧ n.exponent.isNone then
    if n.negative then (if n.whole = 0 then none else some (-(n.whole : Int)))
    else some n.whole
  else none

/-- The natural number below a limit that is written, if it is one. -/
def toNatBelow? (limit : Nat) (n : JsonNumber) : Option Nat :=
  match n.toInt? with
  | some (.ofNat k) => if k < limit then some k else none
  | _ => none

/-- The 64-bit integer that is written, if it is one. -/
def toLong? (n : JsonNumber) : Option Int64 :=
  match n.toInt? with
  | some i => if -(longLimit : Int) ≤ i ∧ i < longLimit then some (.ofInt i) else none
  | none => none

/-- The number that is written, exactly. -/
def toDecimal (n : JsonNumber) : SignedDecimal :=
  ⟨n.negative, n.fraction.foldl (fun k d => k * 10 + d.val) n.whole,
    n.exponent.getD 0 - (n.fraction.length : Int)⟩

/-- The double nearest to the number. -/
def nearest (n : JsonNumber) : Float := n.toDecimal.toDouble

/-- A significand that fits a machine word, with the power of ten that goes with it. -/
structure Scaled where
  significand : Nat
  exponent : Int
  /-- Whether a digit was left out because the significand was full. -/
  full : Bool
  deriving Repr, DecidableEq

/-- Takes one more digit before the point. Once the significand is full, digits only count. -/
def Scaled.pushWhole (s : Scaled) (d : Digit) : Scaled :=
  if s.full ∨ wordLimit ≤ s.significand * 10 + d.val then ⟨s.significand, s.exponent + 1, true⟩
  else ⟨s.significand * 10 + d.val, s.exponent, false⟩

/-- Takes one more digit after the point. Once the significand is full, digits are left out. -/
def Scaled.pushFraction (s : Scaled) (d : Digit) : Scaled :=
  if s.full ∨ wordLimit ≤ s.significand * 10 + d.val then ⟨s.significand, s.exponent, true⟩
  else ⟨s.significand * 10 + d.val, s.exponent - 1, false⟩

/-- The digits of the number, as many as fit a machine word. -/
def scaled (n : JsonNumber) : Scaled :=
  let whole := (digitsOf n.whole).foldl Scaled.pushWhole ⟨0, 0, false⟩
  n.fraction.foldl Scaled.pushFraction ⟨whole.significand, whole.exponent, false⟩

/-- Multiplies by a power of ten in steps of at most 308 powers, each of which is rounded. A number
that grows too large is refused. At most `fuel` steps are taken. -/
def scaleBy : (fuel : Nat) → (x : Float) → (exponent : Int) → Option Float
  | 0, x, _ => some x
  | fuel + 1, x, exponent =>
    if exponent.natAbs ≤ 308 then
      let power := Float.ofScientific 1 false exponent.natAbs
      if 0 ≤ exponent then
        let y := x * power
        if y.isInf then none else some y
      else some (x / power)
    else if x == 0.0 then some x
    else if 0 ≤ exponent then none
    else scaleBy fuel (x / 1e308) (exponent + 308)

/-- The largest exponent that is told from larger ones. -/
def exponentLimit : Int := 2147483647

/-- The double that is read for the number, if it is in range. It is close to the number, but not
always nearest: at most 64 bits of the significand are taken, and the power of ten is multiplied
afterwards. -/
def toDouble? (n : JsonNumber) : Option Float :=
  let s := n.scaled
  let exponent := n.exponent.getD 0
  let x := s.significand.toUInt64.toFloat
  let magnitude :=
    if exponentLimit < exponent then (if s.significand = 0 then some 0.0 else none)
    else if exponent < -exponentLimit then some 0.0
    else scaleBy 4 x (max (-exponentLimit - 1) (min exponentLimit (s.exponent + exponent)))
  magnitude.map fun m => if n.negative then -m else m

/-- How doubles are written: in full from `0.00001` up to, but not including, `10 ^ 16`, and whole
ones with a zero after the point. -/
def layout : NumberLayout := ⟨some (-5, 16), ".0"⟩

/-- The number with the given digits and leading exponent. -/
def ofDecimal (negative : Bool) (d : DecimalDigits) : JsonNumber :=
  let digits := digitsOf d.digits
  let leading := d.exponent + (digits.length : Int) - 1
  if layout.isPositional leading then
    if leading < 0 then
      ⟨negative, 0, List.replicate (-leading - 1).toNat 0 ++ digits, none⟩
    else
      let wholeDigits := leading.toNat + 1
      let fraction := digits.drop wholeDigits
      ⟨negative,
        ofDigits (digits.take wholeDigits ++ List.replicate (wholeDigits - digits.length) 0),
        if fraction.isEmpty then [0] else fraction, none⟩
  else ⟨negative, ofDigits (digits.take 1), digits.drop 1, some leading⟩

/-- A finite double, with the fewest digits that tell it from other doubles. -/
def ofFinite (x : Float) : JsonNumber :=
  let bits := x.toBits
  let magnitude := bits &&& 0x7FFFFFFFFFFFFFFF
  if magnitude = 0 then ⟨bits != magnitude, 0, [0], none⟩
  else ofDecimal (bits != magnitude) (Dyadic.ofBits magnitude).shortest

end JsonNumber

namespace Json

/-- A natural number. -/
def ofNat (n : Nat) : Json := .number (.ofNat n)

/-- An integer. -/
def ofInt (i : Int) : Json := .number (.ofInt i)

/-- Text. -/
def text (s : String) : Json := .string (some s)

/-- An object with the given members. -/
def record (members : List (String × Json)) : Json :=
  .object (members.map fun (k, v) => (some k, v))

end Json

end Superstep
