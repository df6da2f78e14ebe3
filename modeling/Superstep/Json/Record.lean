import Superstep.Json.Value

/-!
# Records in JSON

A record with named fields is written as an object, whose members may come in any order and among
which unknown ones are passed over, or as an array of the fields in their order.
`RecordShape.slots?` brings both forms together: it answers with what is written for each field, if
anything is.
-/

namespace Superstep

/-- The fields of a record. -/
structure RecordShape where
  /-- The names of the fields, in order. -/
  fields : List String
  /-- Whether every field may be left out. If not, an array lists all fields, and each field says
  for itself what it means to be missing in an object. -/
  allOptional : Bool
  deriving Repr, DecidableEq

namespace RecordShape

/-- What is written for a field in an object. A field must not be written twice. -/
def slot? (members : List (String × Json)) (field : String) : Option (Option Json) :=
  match members.filter (·.1 == field) with
  | [] => some none
  | [(_, value)] => some (some value)
  | _ => none

/-- What is written for each field of a record. -/
def slots? (shape : RecordShape) : Json → Option (List (Option Json))
  | .object members => do
    -- a key that is not Unicode text spoils the whole object, even where it would be passed over
    let members ← members.mapM fun (key, value) => key.map fun key => (key, value)
    shape.fields.mapM (slot? members)
  | .array items =>
    -- from the end, optional fields may be left out
    if items.length = shape.fields.length
        ∨ shape.allOptional ∧ items.length < shape.fields.length then
      some ((List.range shape.fields.length).map fun i => items[i]?)
    else none
  | _ => none

/-- The object that holds the given values under the names of the fields. -/
def toJson (shape : RecordShape) (values : List Json) : Json :=
  .record (shape.fields.zip values)

end RecordShape

namespace Json

/-- Reads a field that must be there. -/
def required? {β : Type} (read : Json → Option β) (slot : Option Json) : Option β := slot.bind read

/-- Reads a field that has a default. -/
def optional? {β : Type} (read : Json → Option β) (default : β) : Option Json → Option β
  | some j => read j
  | none => some default

/-- Reads a truth value. -/
def toBool? : Json → Option Bool
  | .bool b => some b
  | _ => none

/-- Reads a text. -/
def toText? : Json → Option String
  | .string s => s
  | _ => none

/-- Reads a natural number that fits a 64-bit word. -/
def toWord? : Json → Option Nat
  | .number n => n.toNatBelow? wordLimit
  | _ => none

/-- Reads a choice among named alternatives: the name itself, or an object that has `null` under
it. -/
def toChoice? {β : Type} (ofName? : String → Option β) : Json → Option β
  | .string (some name) => ofName? name
  | .object [(some name, .null)] => ofName? name
  | _ => none

end Json

end Superstep
