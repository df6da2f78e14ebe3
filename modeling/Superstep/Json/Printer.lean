import Superstep.Json.Value

/-!
# Printing JSON

`Json.write` puts the text of a value in front of the text that follows, either without any white
space or with every item on a line of its own. In strings, quotes, backslashes and the control
characters are escaped, and nothing else.
-/

namespace Superstep

namespace JsonNumber

/-- The text of an exponent, which always has a sign. -/
def writeExponent (exponent : Int) (rest : List Char) : List Char :=
  'e' :: (if exponent < 0 then '-' else '+') :: (Nat.toDigits 10 exponent.natAbs ++ rest)

/-- The text of a number. -/
def write (n : JsonNumber) (rest : List Char) : List Char :=
  let rest := match n.exponent with
    | none => rest
    | some e => writeExponent e rest
  let rest := if n.fraction.isEmpty then rest else '.' :: (n.fraction.map Digit.char ++ rest)
  let rest := Nat.toDigits 10 n.whole ++ rest
  if n.negative then '-' :: rest else rest

end JsonNumber

namespace Json

/-- The way items are arranged. -/
inductive Arrangement where
  /-- Without white space. -/
  | compact
  /-- One item a line, indented by two blanks for each of the arrays and objects around it, of
  which there are `depth`. -/
  | indented (depth : Nat)
  deriving Repr, DecidableEq

namespace Arrangement

/-- The arrangement of the items inside an array or object. -/
def inner : Arrangement → Arrangement
  | compact => compact
  | indented depth => indented (depth + 1)

/-- What comes before an item, and before the bracket that ends the items. -/
def lineBreak : Arrangement → List Char → List Char
  | compact, rest => rest
  | indented depth, rest => '\n' :: (List.replicate (2 * depth) ' ' ++ rest)

/-- What comes between a key and its value. -/
def colon : Arrangement → List Char → List Char
  | compact, rest => ':' :: rest
  | indented _, rest => ':' :: ' ' :: rest

end Arrangement

/-- The escape of a character that has one of its own. -/
def shortEscape? (c : Char) : Option Char :=
  if c = '"' then some '"'
  else if c = '\\' then some '\\'
  else if c = '\x08' then some 'b'
  else if c = '\t' then some 't'
  else if c = '\n' then some 'n'
  else if c = '\x0C' then some 'f'
  else if c = '\r' then some 'r'
  else none

/-- The text of a character in a string. -/
def writeChar (c : Char) (rest : List Char) : List Char :=
  match shortEscape? c with
  | some e => '\\' :: e :: rest
  | none =>
    if c.toNat < 0x20 then
      '\\' :: 'u' :: '0' :: '0' :: Nat.digitChar (c.toNat / 16) :: Nat.digitChar (c.toNat % 16)
        :: rest
    else c :: rest

/-- The text of a string. What is not Unicode text is written as half a surrogate pair. -/
def writeString (text : Option String) (rest : List Char) : List Char :=
  match text with
  | some s => '"' :: s.toList.foldr writeChar ('"' :: rest)
  | none => '"' :: '\\' :: 'u' :: 'd' :: '8' :: '0' :: '0' :: '"' :: rest

mutual

/-- The text of a value. -/
def write (a : Arrangement) : Json → List Char → List Char
  | .null, rest => 'n' :: 'u' :: 'l' :: 'l' :: rest
  | .bool true, rest => 't' :: 'r' :: 'u' :: 'e' :: rest
  | .bool false, rest => 'f' :: 'a' :: 'l' :: 's' :: 'e' :: rest
  | .number n, rest => n.write rest
  | .string s, rest => writeString s rest
  | .array [], rest => '[' :: ']' :: rest
  | .array (item :: items), rest =>
    '[' :: a.inner.lineBreak
      (write a.inner item (writeItems a.inner items (a.lineBreak (']' :: rest))))
  | .object [], rest => '\x7b' :: '\x7d' :: rest
  | .object ((key, value) :: members), rest =>
    '\x7b' :: a.inner.lineBreak (writeString key (a.colon (write a.inner value
      (writeMembers a.inner members (a.lineBreak ('\x7d' :: rest))))))

/-- The texts of the items after the first one, each after a comma. -/
def writeItems (a : Arrangement) : List Json → List Char → List Char
  | [], rest => rest
  | item :: items, rest => ',' :: a.lineBreak (write a item (writeItems a items rest))

/-- The texts of the members after the first one, each after a comma. -/
def writeMembers (a : Arrangement) : List (Option String × Json) → List Char → List Char
  | [], rest => rest
  | (key, value) :: members, rest =>
    ',' :: a.lineBreak (writeString key (a.colon (write a value (writeMembers a members rest))))

end

/-- The text of a value, without white space. -/
def compact (j : Json) : String := String.ofList (j.write .compact [])

/-- The text of a value, with one item a line. -/
def pretty (j : Json) : String := String.ofList (j.write (.indented 0) [])

end Json

end Superstep
