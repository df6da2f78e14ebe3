/-!
# Reading numbers

Two grammars for numbers in plain text. `readNatural` reads a natural number below a limit, with an
optional plus sign. `readDouble` reads a decimal number with optional sign, point and exponent, or
the name of an infinity or of the value that is not a number, and rounds it to the nearest double.
-/

namespace Superstep

/-- The number `± significand * 10 ^ exponent`. -/
structure SignedDecimal where
  negative : Bool
  significand : Nat
  exponent : Int
  deriving Repr, DecidableEq

/-- The double nearest to a decimal number. Of two that are equally near it is the one with an even
significand. Numbers out of range become infinite or zero. -/
def SignedDecimal.toDouble (d : SignedDecimal) : Float :=
  let digits := (Nat.toDigits 10 d.significand).length
  let leading := d.exponent + (digits : Int) - 1
  -- far out of range the answer is known without looking at the digits
  let magnitude :=
    if d.significand = 0 ∨ leading < -400 then 0.0
    else if 400 < leading then 1.0 / 0.0
    else Float.ofScientific d.significand (decide (d.exponent < 0)) d.exponent.natAbs
  if d.negative then -magnitude else magnitude

/-- A decimal digit. -/
abbrev Digit := Fin 10

/-- The digit that a character stands for, if it is one of `0` to `9`. -/
def digit? (c : Char) : Option Digit :=
  if h : 48 ≤ c.toNat ∧ c.toNat ≤ 57 then some ⟨c.toNat - 48, by omega⟩ else none

/-- The character of a digit. -/
def Digit.char (d : Digit) : Char := Nat.digitChar d.val

theorem digit?_char (d : Digit) : digit? d.char = some d := by revert d; decide

/-- The digits at the start of a text, and the rest. -/
def spanDigits : List Char → List Digit × List Char
  | [] => ([], [])
  | c :: rest =>
    match digit? c with
    | some d => let (ds, rest) := spanDigits rest; (d :: ds, rest)
    | none => ([], c :: rest)

/-- The number that digits stand for. -/
def ofDigits (digits : List Digit) : Nat := digits.foldl (fun n d => n * 10 + d.val) 0

/-- The digits of a number, without leading zeros. -/
def digitsOf (n : Nat) : List Digit := (spanDigits (Nat.toDigits 10 n)).1

/-- Why a text is not a natural number below a limit. -/
inductive NaturalError where
  | empty
  | invalidDigit
  | tooLarge
  deriving Repr, DecidableEq

/-- The text that reports the error. -/
def NaturalError.message : NaturalError → String
  | .empty => "cannot parse integer from empty string"
  | .invalidDigit => "invalid digit found in string"
  | .tooLarge => "number too large to fit in target type"

/-- Goes on reading digits from a number that was read so far. Every step must stay below the
limit. -/
def readDigitsBelow (limit : Nat) : (n : Nat) → List Char → Except NaturalError Nat
  | n, [] => .ok n
  | n, c :: rest =>
    match digit? c with
    | none => .error .invalidDigit
    | some d =>
      if n * 10 + d.val < limit then readDigitsBelow limit (n * 10 + d.val) rest
      else .error .tooLarge

/-- Reads a natural number below a limit. -/
def readNatural (limit : Nat) (text : List Char) : Except NaturalError Nat :=
  match text with
  | [] => .error .empty
  | ['+'] => .error .invalidDigit
  | '+' :: digits => readDigitsBelow limit 0 digits
  | digits => readDigitsBelow limit 0 digits

/-- Reads the digits of an exponent with an optional sign. -/
def readExponent (text : List Char) : Option Int :=
  let (negative, text) := match text with
    | '-' :: rest => (true, rest)
    | '+' :: rest => (false, rest)
    | text => (false, text)
  match spanDigits text with
  | ([], _) => none
  | (digits, []) => some (if negative then -(ofDigits digits : Int) else ofDigits digits)
  | (_, _ :: _) => none

/-- Reads a decimal number without its sign. -/
def readMagnitude (negative : Bool) (text : List Char) : Option SignedDecimal :=
  let (whole, text) := spanDigits text
  let (fraction, text) := match text with
    | '.' :: rest => spanDigits rest
    | text => ([], text)
  if whole.isEmpty && fraction.isEmpty then none
  else
    -- the digits after the point move it to the left
    let decimal (exponent : Int) : SignedDecimal :=
      ⟨negative, ofDigits (whole ++ fraction), exponent - (fraction.length : Int)⟩
    match text with
    | [] => some (decimal 0)
    | c :: rest => if c = 'e' ∨ c = 'E' then (readExponent rest).map decimal else none

/-- Reads a double; letters count in either case. -/
def readDouble (text : List Char) : Option Float :=
  let (negative, rest) := match text with
    | '-' :: rest => (true, rest)
    | '+' :: rest => (false, rest)
    | text => (false, text)
  let name := String.ofList (rest.map Char.toLower)
  if name = "inf" ∨ name = "infinity" then some (if negative then -1.0 / 0.0 else 1.0 / 0.0)
  else if name = "nan" then some (0.0 / 0.0)
  else (readMagnitude negative rest).map SignedDecimal.toDouble

/-- The text that reports that a text is not a double. -/
def doubleErrorMessage (text : List Char) : String :=
  if text.isEmpty then "cannot parse float from empty string" else "invalid float literal"

end Superstep
