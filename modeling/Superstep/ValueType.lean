/-!
# Types of per-vertex values

A slot holds one value per vertex, either a scalar or an array of scalars. The names here are the
ones used in messages (`name`) and in serialized schemas (`tag`).
-/

namespace Superstep

/-- The type of a per-vertex slot. -/
inductive ValueType where
  /-- A 64-bit signed integer. -/
  | long
  /-- A floating-point number. -/
  | double
  /-- An array of 64-bit signed integers, of any length. -/
  | longArray
  /-- An array of floating-point numbers, of any length. -/
  | doubleArray
  deriving Repr, DecidableEq, Inhabited

namespace ValueType

/-- Every type, in declaration order. -/
def all : List ValueType := [.long, .double, .longArray, .doubleArray]

/-- The type's name in messages. -/
def name : ValueType → String
  | .long => "Long"
  | .double => "Double"
  | .longArray => "LongArray"
  | .doubleArray => "DoubleArray"

/-- The type's name in a serialized schema. -/
def tag : ValueType → String
  | .long => "long"
  | .double => "double"
  | .longArray => "long_array"
  | .doubleArray => "double_array"

/-- The type with a given serialized name. -/
def ofTag? (s : String) : Option ValueType := all.find? (·.tag == s)

theorem ofTag?_tag (t : ValueType) : ofTag? t.tag = some t := by cases t <;> rfl

end ValueType

end Superstep
