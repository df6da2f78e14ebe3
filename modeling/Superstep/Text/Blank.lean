/-!
# Blank characters

The characters with the Unicode property *White_Space*, and how text is cut at them.
-/

namespace Superstep.Text

/-- The ranges of the characters that are blank, first and last code point of each. -/
def blankRanges : List (Nat × Nat) :=
  [(0x0009, 0x000D), (0x0020, 0x0020), (0x0085, 0x0085), (0x00A0, 0x00A0), (0x1680, 0x1680),
   (0x2000, 0x200A), (0x2028, 0x2029), (0x202F, 0x202F), (0x205F, 0x205F), (0x3000, 0x3000)]

/-- Whether a character is blank. -/
def isBlank (c : Char) : Bool :=
  blankRanges.any fun (first, last) => decide (first ≤ c.toNat) && decide (c.toNat ≤ last)

/-- A text without the blanks at its start. -/
def trimStart (text : List Char) : List Char := text.dropWhile isBlank

/-- A text without the blanks at its start and end. -/
def trim (text : List Char) : List Char := (trimStart (trimStart text).reverse).reverse

/-- Adds a field to those found so far, unless it is empty. Both are in reverse. -/
def closeField (field : List Char) (fields : List (List Char)) : List (List Char) :=
  if field.isEmpty then fields else field.reverse :: fields

/-- Cuts the rest of a text into fields, where `field` is the beginning of the field at hand and
`fields` are the ones before it, both in reverse. -/
def fieldsFrom : (field : List Char) → (fields : List (List Char)) → List Char →
    List (List Char)
  | field, fields, [] => (closeField field fields).reverse
  | field, fields, c :: rest =>
    if isBlank c then fieldsFrom [] (closeField field fields) rest
    else fieldsFrom (c :: field) fields rest

/-- The longest pieces of a text without blanks, in order. -/
def fields (text : List Char) : List (List Char) := fieldsFrom [] [] text

/-- Drops the carriage return at the end of a line, which is given in reverse, and puts the line
into order. -/
def closeLine (line : List Char) : List Char :=
  match line with
  | '\r' :: rest => rest.reverse
  | line => line.reverse

/-- Cuts the rest of a text into lines, where `line` is the beginning of the line at hand and
`lines` are the ones before it, both in reverse. -/
def linesFrom : (line : List Char) → (lines : List (List Char)) → List Char → List (List Char)
  | line, lines, [] => (if line.isEmpty then lines else line.reverse :: lines).reverse
  | line, lines, c :: rest =>
    if c = '\n' then linesFrom [] (closeLine line :: lines) rest
    else linesFrom (c :: line) lines rest

/-- The lines of a text. A line ends with a newline, before which a carriage return is dropped; the
last one may go without. -/
def lines (text : List Char) : List (List Char) := linesFrom [] [] text

end Superstep.Text
