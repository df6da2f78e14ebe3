import Superstep.Json.Value

/-!
# Reading JSON

`Json.parse?` reads the text of one value, with white space around it and nothing else. Every
function here reads from the start of a text and answers with what it read and the rest, or with
`none` if the text does not start with what it looks for.
-/

namespace Superstep

/-- White space. -/
def Json.isSpace (c : Char) : Bool := c == ' ' || c == '\t' || c == '\n' || c == '\r'

/-- A text without the white space at its start. -/
def Json.skipSpace (text : List Char) : List Char := text.dropWhile isSpace

namespace JsonNumber

/-- Reads digits, of which there must be at least one. -/
def readDigits? (text : List Char) : Option (List Digit × List Char) :=
  match spanDigits text with
  | ([], _) => none
  | (d :: ds, rest) => some (d :: ds, rest)

/-- Reads the digits before the point. Only a single zero may be the first one. -/
def readWhole? (text : List Char) : Option (Nat × List Char) :=
  match readDigits? text with
  | some (d :: ds, rest) =>
    if d.val = 0 && !ds.isEmpty then none else some (ofDigits (d :: ds), rest)
  | _ => none

/-- Reads the point and the digits after it, if there is a point. -/
def readFraction? (text : List Char) : Option (List Digit × List Char) :=
  match text with
  | '.' :: rest => readDigits? rest
  | text => some ([], text)

/-- Reads the digits of an exponent after its sign. -/
def readMagnitude? (negative : Bool) (text : List Char) : Option (Option Int × List Char) :=
  (readDigits? text).map fun (digits, rest) =>
    (some (if negative then -(ofDigits digits : Int) else ofDigits digits), rest)

/-- Reads an exponent, if there is one. -/
def readExponent? (text : List Char) : Option (Option Int × List Char) :=
  match text with
  | c :: rest =>
    if c = 'e' ∨ c = 'E' then
      match rest with
      | '-' :: rest => readMagnitude? true rest
      | '+' :: rest => readMagnitude? false rest
      | rest => readMagnitude? false rest
    else some (none, c :: rest)
  | [] => some (none, [])

/-- Reads a number without its sign. -/
def readUnsigned? (negative : Bool) (text : List Char) : Option (JsonNumber × List Char) := do
  let (whole, text) ← readWhole? text
  let (fraction, text) ← readFraction? text
  let (exponent, text) ← readExponent? text
  return (⟨negative, whole, fraction, exponent⟩, text)

/-- Reads a number. -/
def read? (text : List Char) : Option (JsonNumber × List Char) :=
  match text with
  | '-' :: rest => readUnsigned? true rest
  | text => readUnsigned? false text

end JsonNumber

namespace Json

/-- The value of a hexadecimal digit. -/
def hexDigit? (c : Char) : Option Nat :=
  if '0' ≤ c ∧ c ≤ '9' then some (c.toNat - '0'.toNat)
  else if 'a' ≤ c ∧ c ≤ 'f' then some (c.toNat - 'a'.toNat + 10)
  else if 'A' ≤ c ∧ c ≤ 'F' then some (c.toNat - 'A'.toNat + 10)
  else none

/-- The number that hexadecimal digits stand for, if all are digits. -/
def hexNumber? (digits : List Char) : Option Nat :=
  digits.foldlM (fun n c => (hexDigit? c).map fun d => n * 16 + d) 0

/-- A piece of a string: a character, or the number of an escape that may be half a character. -/
inductive StringPiece where
  | char (c : Char)
  | escape (unit : Nat)
  deriving Repr, DecidableEq

/-- The character that a letter after a backslash stands for. -/
def unescape? (c : Char) : Option Char :=
  if c = '"' then some '"'
  else if c = '\\' then some '\\'
  else if c = '/' then some '/'
  else if c = 'b' then some '\x08'
  else if c = 'f' then some '\x0C'
  else if c = 'n' then some '\n'
  else if c = 'r' then some '\r'
  else if c = 't' then some '\t'
  else none

/-- Reads the pieces of a string up to the quote that ends it. -/
def readPieces? : List Char → Option (List StringPiece × List Char)
  | [] => none
  | '"' :: rest => some ([], rest)
  | '\\' :: 'u' :: a :: b :: c :: d :: rest => do
    let unit ← hexNumber? [a, b, c, d]
    let (pieces, rest) ← readPieces? rest
    return (.escape unit :: pieces, rest)
  | '\\' :: e :: rest => do
    let c ← unescape? e
    let (pieces, rest) ← readPieces? rest
    return (.char c :: pieces, rest)
  | c :: rest =>
    if c = '\\' ∨ c.toNat < 0x20 then none
    else (readPieces? rest).map fun (pieces, rest) => (.char c :: pieces, rest)

/-- Whether an escape is the first half of a character. -/
def isHighHalf (unit : Nat) : Bool := decide (0xD800 ≤ unit) && decide (unit < 0xDC00)

/-- Whether an escape is the second half of a character. -/
def isLowHalf (unit : Nat) : Bool := decide (0xDC00 ≤ unit) && decide (unit < 0xE000)

/-- The characters of a string, if its escapes make up whole characters. -/
def joinPieces? : List StringPiece → Option (List Char)
  | [] => some []
  | .char c :: rest => (joinPieces? rest).map (c :: ·)
  | .escape high :: .escape low :: rest =>
    if isHighHalf high then
      if isLowHalf low then
        -- each half has ten bits of the character
        let code := 0x10000 + (high - 0xD800) * 0x400 + (low - 0xDC00)
        (joinPieces? rest).map (Char.ofNat code :: ·)
      else none
    else if isLowHalf high then none
    else (joinPieces? (.escape low :: rest)).map (Char.ofNat high :: ·)
  | .escape unit :: rest =>
    if isHighHalf unit || isLowHalf unit then none
    else (joinPieces? rest).map (Char.ofNat unit :: ·)

/-- Reads a string after the quote that starts it. -/
def readString? (text : List Char) : Option (Option String × List Char) :=
  (readPieces? text).map fun (pieces, rest) => ((joinPieces? pieces).map String.ofList, rest)

mutual

/-- Reads a value, of at most `fuel` nested or consecutive parts. -/
def readValue? : (fuel : Nat) → List Char → Option (Json × List Char)
  | 0, _ => none
  | fuel + 1, text =>
    match skipSpace text with
    | 'n' :: 'u' :: 'l' :: 'l' :: rest => some (.null, rest)
    | 't' :: 'r' :: 'u' :: 'e' :: rest => some (.bool true, rest)
    | 'f' :: 'a' :: 'l' :: 's' :: 'e' :: rest => some (.bool false, rest)
    | '"' :: rest => (readString? rest).map fun (s, rest) => (.string s, rest)
    | '[' :: rest =>
      match skipSpace rest with
      | ']' :: rest => some (.array [], rest)
      | rest => (readItems? fuel rest).map fun (items, rest) => (.array items, rest)
    | '\x7b' :: rest =>
      match skipSpace rest with
      | '\x7d' :: rest => some (.object [], rest)
      | rest => (readMembers? fuel rest).map fun (members, rest) => (.object members, rest)
    | rest => (JsonNumber.read? rest).map fun (n, rest) => (.number n, rest)

/-- Reads the items of an array, of which there is at least one, and the bracket after them. -/
def readItems? : (fuel : Nat) → List Char → Option (List Json × List Char)
  | 0, _ => none
  | fuel + 1, text => do
    let (item, rest) ← readValue? fuel text
    match skipSpace rest with
    | ',' :: rest => (readItems? fuel rest).map fun (items, rest) => (item :: items, rest)
    | ']' :: rest => some ([item], rest)
    | _ => none

/-- Reads the members of an object, of which there is at least one, and the brace after them. -/
def readMembers? : (fuel : Nat) → List Char → Option (List (Option String × Json) × List Char)
  | 0, _ => none
  | fuel + 1, text =>
    match skipSpace text with
    | '"' :: rest => do
      let (key, rest) ← readString? rest
      match skipSpace rest with
      | ':' :: rest =>
        let (value, rest) ← readValue? fuel rest
        match skipSpace rest with
        | ',' :: rest =>
          (readMembers? fuel rest).map fun (members, rest) => ((key, value) :: members, rest)
        | '\x7d' :: rest => some ([(key, value)], rest)
        | _ => none
      | _ => none
    | _ => none

end

/-- The value that a text stands for. Every part of a value takes a character, so that the length of
the text bounds the parts. -/
def parse? (text : List Char) : Option Json :=
  -- a value and the list it stands in take a unit of fuel each
  match readValue? (2 * text.length + 1) text with
  | some (j, rest) => if (skipSpace rest).isEmpty then some j else none
  | none => none

end Json

end Superstep
